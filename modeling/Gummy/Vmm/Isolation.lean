import Gummy.Vmm.Clone

/-!
What the functions of `vmm.c` leave alone: the lower halves of the other spaces.
-/

namespace Gummy

open CWord Machine
open Relation (ReflTransGen)

variable {m m' m'' : Machine} {D : Owners} {S : Set ℕ} {c d : ℕ}

/-! ### One lower half -/

lemma walk_space (m : Machine) (c v : ℕ) : (m.space c).walk v =
    if isPresent (m.entry c (getPdeIndex v)) = true ∧
        isPresent (m.entry (frameAddr (m.entry c (getPdeIndex v))) (getPteIndex v)) = true then
      some (frameAddr (m.entry (frameAddr (m.entry c (getPdeIndex v))) (getPteIndex v)),
        perm (m.entry c (getPdeIndex v)) &&&
          perm (m.entry (frameAddr (m.entry c (getPdeIndex v))) (getPteIndex v)))
    else none :=
  rfl

/-- The lower half of the space `c` has the same tables, and its pages have the same bytes.
An entry of the directory that is absent may change its value. -/
structure SameUser (c : ℕ) (m m' : Machine) : Prop where
  present : ∀ k < 768, isPresent (m'.entry c k) = isPresent (m.entry c k)
  pde : ∀ k < 768, isPresent (m.entry c k) = true → m'.entry c k = m.entry c k
  pte : ∀ k < 768, isPresent (m.entry c k) = true → ∀ l < 1024,
    m'.entry (frameAddr (m.entry c k)) l = m.entry (frameAddr (m.entry c k)) l
  bytes : ∀ k < 768, isPresent (m.entry c k) = true → ∀ l < 1024,
    isPresent (m.entry (frameAddr (m.entry c k)) l) = true → ∀ x < pageSize,
      m'.phys (frameAddr (m.entry (frameAddr (m.entry c k)) l) + x) =
        m.phys (frameAddr (m.entry (frameAddr (m.entry c k)) l) + x)

namespace SameUser

lemma refl (c : ℕ) (m : Machine) : SameUser c m m :=
  ⟨fun _ _ => rfl, fun _ _ _ => rfl, fun _ _ _ _ _ => rfl, fun _ _ _ _ _ _ _ _ => rfl⟩

lemma trans (h : SameUser c m m') (h' : SameUser c m' m'') : SameUser c m m'' where
  present k hk := (h'.present k hk).trans (h.present k hk)
  pde k hk hp := by
    have hpde := h.pde k hk hp
    rw [h'.pde k hk (by rwa [hpde]), hpde]
  pte k hk hp l hl := by
    have hpde := h.pde k hk hp
    have hpte := h'.pte k hk (by rwa [hpde]) l hl
    rw [hpde] at hpte
    rw [hpte, h.pte k hk hp l hl]
  bytes k hk hp l hl hpl x hx := by
    have hpde := h.pde k hk hp
    have hpte := h.pte k hk hp l hl
    have hbytes := h'.bytes k hk (by rwa [hpde]) l hl (by rwa [hpde, hpte]) x hx
    rw [hpde, hpte] at hbytes
    rw [hbytes, h.bytes k hk hp l hl hpl x hx]

/-- Which directory is active does not matter. -/
lemma space (h : SameUser c m m') (d d' : ℕ) : SameUser c (m.space d) (m'.space d') :=
  ⟨h.present, h.pde, h.pte, h.bytes⟩

/-- The same pages are mapped to the same frames, with the same permissions. -/
lemma walk_eq (h : SameUser c m m') {v : ℕ} (hv : v < 0xC0000000) :
    (m'.space c).walk v = (m.space c).walk v := by
  have hi : getPdeIndex v < 768 := by
    rw [getPdeIndex_eq]
    omega
  have hj := getPteIndex_lt v
  rw [walk_space, walk_space]
  by_cases hp : isPresent (m.entry c (getPdeIndex v)) = true
  · rw [h.pde _ hi hp, h.pte _ hi hp _ hj]
  · rw [if_neg fun h' => hp (by rw [← h.present _ hi, h'.1]), if_neg fun h' => hp h'.1]

lemma translate_eq (h : SameUser c m m') {v : ℕ} (hv : v < 0xC0000000) :
    (m'.space c).translate v = (m.space c).translate v := by
  rw [translate_eq_walk, translate_eq_walk, h.walk_eq hv]

/-- The bytes of the mapped pages are the same. -/
lemma phys_eq (h : SameUser c m m') {v a : ℕ} (hv : v < 0xC0000000)
    (ha : (m.space c).translate v = some a) : m'.phys a = m.phys a := by
  have hi : getPdeIndex v < 768 := by
    rw [getPdeIndex_eq]
    omega
  have hj := getPteIndex_lt v
  rw [translate_eq_walk, walk_space] at ha
  split_ifs at ha with hp
  · obtain rfl := Option.some.inj ha
    exact h.bytes _ hi hp.1 _ hj hp.2 _ (Nat.mod_lt v (by norm_num))
  · cases ha

end SameUser

/-- Edits of slots outside the lower half of `c`, or of slots that are absent before and after. -/
lemma Elsewhere.sameUser (h : Elsewhere D S m m') (hc : c ∈ D)
    (hout : c ≠ m.cr3 ∨ ∀ k < 768, k ∈ S →
      ¬ isPresent (m.entry c k) = true ∧ ¬ isPresent (m'.entry c k) = true) :
    SameUser c m m' := by
  have hcases : ∀ k < 768, (c ≠ m.cr3 ∨ k ∉ S) ∨
      ¬ isPresent (m.entry c k) = true ∧ ¬ isPresent (m'.entry c k) = true := by
    intro k hk
    rcases hout with hne | habsent
    · exact Or.inl (Or.inl hne)
    · by_cases hS : k ∈ S
      · exact Or.inr (habsent k hk hS)
      · exact Or.inl (Or.inr hS)
  have hpde : ∀ k < 768, isPresent (m.entry c k) = true → c ≠ m.cr3 ∨ k ∉ S := by
    intro k hk hp
    rcases hcases k hk with hout | ⟨habsent, -⟩
    · exact hout
    · exact absurd hp habsent
  refine ⟨fun k hk => ?_, fun k hk hp => ?_, fun k hk hp l hl => ?_,
    fun k hk hp l hl hpl x hx => ?_⟩
  · rcases hcases k hk with hout | ⟨habsent, habsent'⟩
    · rw [h.pde c hc k (by omega) hout]
    · rw [Bool.not_eq_true] at habsent habsent'
      rw [habsent, habsent']
  · exact h.pde c hc k (by omega) (hpde k hk hp)
  · exact h.pte c hc k (by omega) ((hpde k hk hp).imp_left fun hne => ⟨hk, hne⟩) hp l hl
  · exact h.bytes c hc k (by omega) (Or.inl hk) ((hpde k hk hp).imp_left fun hne => ⟨hk, hne⟩) hp l
      hl hpl x hx

/-! ### Edits in another space -/

/-- Edits of the slots `S` in the space `d`, whichever space is active before and after. -/
def EditsIn (D : Owners) (S : Set ℕ) (d : ℕ) (m m' : Machine) : Prop :=
  ∃ m₁, Edits D S (m.space d) m₁ ∧ m' = m₁.space m.cr3

lemma inSpace_eq {α : Type*} {f : Machine → α × Machine} (hf : ∀ m, (f m).2.cr3 = m.cr3)
    (d : ℕ) (m : Machine) :
    inSpace d f m = ((f (m.space d)).1, (f (m.space d)).2.space m.cr3) := by
  have hcr3 : (f (m.space d)).2.cr3 = d := hf _
  unfold inSpace
  dsimp only
  split_ifs with hne
  · rfl
  · have hspace : (f (m.space d)).2.space m.cr3 = (f (m.space d)).2 := by
      rw [not_not.1 hne]
      conv_rhs => rw [← space_cr3 (m := (f (m.space d)).2), hcr3]
    rw [hspace]
    rfl

lemma vmmAllocPagesRegionIn_eq (d n flags regionStart regionEnd : ℕ) (m : Machine) :
    vmmAllocPagesRegionIn d n flags regionStart regionEnd m =
      ((vmmAllocPagesRegion n flags regionStart regionEnd (m.space d)).1,
        (vmmAllocPagesRegion n flags regionStart regionEnd (m.space d)).2.space m.cr3) :=
  inSpace_eq (fun _ => vmmAllocPagesRegion_cr3 ..) _ _

lemma vmmFreePagesIn_eq (d n virt : ℕ) (m : Machine) :
    vmmFreePagesIn d n virt m = ((vmmFreePages n virt (m.space d)).1,
      (vmmFreePages n virt (m.space d)).2.space m.cr3) :=
  inSpace_eq (fun _ => vmmFreePages_cr3 ..) _ _

namespace EditsIn

lemma of_edits (h : Edits D S m m') : EditsIn D S m.cr3 m m' := by
  refine ⟨m', h, ?_⟩
  rw [← h.cr3, space_cr3]

lemma cr3 (h : EditsIn D S d m m') : m'.cr3 = m.cr3 := by
  obtain ⟨m₁, -, rfl⟩ := h
  rfl

lemma trans (h : EditsIn D S d m m') (h' : EditsIn D S d m' m'') : EditsIn D S d m m'' := by
  obtain ⟨m₁, hedits, rfl⟩ := h
  obtain ⟨m₂, hedits', rfl⟩ := h'
  refine ⟨m₂, hedits.trans ?_, rfl⟩
  have hcr3 : m₁.cr3 = d := hedits.cr3
  have hspace : (m₁.space m.cr3).space d = m₁ := by
    rw [← hcr3]
    rfl
  rwa [hspace] at hedits'

lemma spaces (h : EditsIn D S d m m') (hs : Spaces m D) (hd : d ∈ D) : Spaces m' D := by
  obtain ⟨m₁, hedits, rfl⟩ := h
  exact (hedits.spaces (hs.space hd)).space hs.active

lemma elsewhere (h : EditsIn D S d m m') (hs : Spaces m D) (hd : d ∈ D) :
    Elsewhere D S (m.space d) (m'.space d) := by
  obtain ⟨m₁, hedits, rfl⟩ := h
  have hcr3 : m₁.cr3 = d := hedits.cr3
  have hspace : (m₁.space m.cr3).space d = m₁ := by
    rw [← hcr3]
    rfl
  rw [hspace]
  exact hedits.elsewhere (hs.space hd)

/-- The lower halves of the other spaces are the same. -/
lemma sameUser (h : EditsIn D S d m m') (hs : Spaces m D) (hd : d ∈ D) (hc : c ∈ D)
    (hne : c ≠ d) : SameUser c m m' :=
  ((h.elsewhere hs hd).sameUser hc (Or.inl hne)).space m.cr3 m'.cr3

/-- Entries of other slots are the same. -/
lemma entry_eq (h : EditsIn D S d m m') (hs : Spaces m D) (hd : d ∈ D) (hc : c ∈ D) {k : ℕ}
    (hk : k < 1024) (hout : c ≠ d ∨ k ∉ S) : m'.entry c k = m.entry c k :=
  (h.elsewhere hs hd).pde c hc k hk hout

end EditsIn

/-! ### A space goes -/

/-- The lower half of another space is emptied. -/
lemma Spaces.edits_vmmDestroy (h : Spaces m D) (hd : d ∈ D) (hne : d ≠ m.cr3) :
    EditsIn D {i | i < 768} d m (vmmDestroy d m) ∧
      ∀ i < 768, ¬ isPresent ((vmmDestroy d m).entry d i) = true := by
  obtain ⟨hedits, hempty⟩ := (h.space hd).edits_destroyTables
  have hcr3 : (destroyTables (m.space d)).cr3 = d := destroyTables_cr3 (m.space d)
  have h0 : ¬ (d = 0 ∨ d = m.cr3) := not_or.2 ⟨h.nonzero _ _ (.dir hd), hne⟩
  have heq : vmmDestroy d m = (destroyTables (m.space d)).space m.cr3 := by
    unfold vmmDestroy
    rw [if_neg h0, inSpace_eq (f := fun m => ((), destroyTables m)) destroyTables_cr3]
  rw [heq]
  constructor
  · exact ⟨destroyTables (m.space d), hedits, rfl⟩
  · intro i hi
    have hpde : (destroyTables (m.space d)).entry d i = (destroyTables (m.space d)).pde i := by
      rw [entry, pde, hcr3]
    rw [space_entry, hpde]
    exact hempty i hi

/-- The directory of another space is given back. -/
lemma Spaces.remove (h : Spaces m D) (hd : d ∈ D) (hne : d ≠ m.cr3) :
    Spaces { m with pmm := pmmFreePage m.pmm d } { D with dirs := D.dirs \ {d} } := by
  have hless : Spaces m { D with dirs := D.dirs \ {d} } :=
    h.mono Set.sdiff_subset le_rfl ⟨h.active, hne.symm⟩
  refine (Edit.free (S := ∅) ⟨h.dir_dvd d hd, ?_, h.nonzero _ _ (.dir hd),
    h.used _ _ (.dir hd), fun r hr => ?_⟩).spaces hless
  · rw [← h.self d hd]
    exact frameAddr_lt _
  · -- in all spaces the frame is this directory, and among the others there is none
    have hplays : m.Plays D d r := by
      refine Spaces.plays_mono ?_ ?_ hr
      · exact Set.sdiff_subset
      · exact le_rfl
    have hrole : r = .dir d := h.unique _ _ _ hplays (.dir hd)
    cases hr with
    | kernel hf => cases hrole
    | dir hd' => exact hd'.2 rfl
    | table => exact tableRole_ne_dir _ _ _ hrole
    | page => exact pageRole_ne_dir _ _ _ _ hrole

/-! ### Calls for another space -/

/-- A call that is given the space to work in. -/
inductive SpaceCall
  | map (virt phys flags : ℕ)
  | unmap (virt : ℕ)
  | allocRegion (n flags regionStart regionEnd : ℕ)
  | alloc (n flags : ℕ)
  | free (n virt : ℕ)
  | destroy

/-- The pages lie outside the window, and nothing is mapped for the user in the upper half. -/
def SpaceCall.Ok : SpaceCall → Prop
  | .map virt phys flags =>
    virt < 0xFFC00000 ∧ phys < 2 ^ 32 ∧ flags < pageSize ∧ FlagsFit virt flags
  | .unmap virt => virt < 0xFFC00000
  | .allocRegion _ flags regionStart regionEnd =>
    regionStart ≤ regionEnd ∧ regionEnd ≤ 0xFFC00000 ∧ flags < pageSize ∧
      ∀ v < regionEnd, regionStart ≤ v → FlagsFit v flags
  | .alloc _ flags => flags < pageSize ∧ perm flags = vmmFlagsRw
  | .free n virt => virt + n * pageSize ≤ 0xFFC00000
  | .destroy => True

/-- The machine afterwards. -/
def SpaceCall.run (cr3 : ℕ) (m : Machine) : SpaceCall → Machine
  | .map virt phys flags => (vmmMapIn cr3 virt phys flags m).2
  | .unmap virt => (vmmUnmapIn cr3 virt m).2
  | .allocRegion n flags regionStart regionEnd =>
    (vmmAllocPagesRegionIn cr3 n flags regionStart regionEnd m).2
  | .alloc n flags => (vmmAllocPagesIn cr3 n flags m).2
  | .free n virt => (vmmFreePagesIn cr3 n virt m).2
  | .destroy => vmmDestroy cr3 m

/-- The space of the boot loader, with the frames `K` kept for the kernel. -/
lemma BootTables.spaces (h : BootTables m) (h0 : m.cr3 ≠ 0) {K : Set ℕ}
    (hdvd : ∀ f ∈ K, pageSize ∣ f) (hlow : ∀ f ∈ K, 16 * pageSize ≤ f)
    (hused : ∀ f ∈ K, ¬ m.pmm.Free (f / pageSize)) : Spaces m ⟨{m.cr3}, K⟩ := by
  have hm := h.paging
  have hslot : ∀ i < 1023, isPresent (m.pde i) = true → i = 768 := by
    intro i hi hp
    by_contra hne
    rw [h.others i hi hne, isPresent_zero] at hp
    exact Bool.false_ne_true hp
  have hplays : ∀ f r, m.Plays ⟨{m.cr3}, K⟩ f r → r = .kernel ∧ f ∈ K ∨
      r = .dir m.cr3 ∧ f = m.cr3 ∨ r = .kernelTable 768 ∧ f = m.table 768 := by
    intro f r hr
    cases hr with
    | kernel hf => exact Or.inl ⟨rfl, hf⟩
    | dir hd =>
      obtain rfl : f = m.cr3 := hd
      exact Or.inr (Or.inl ⟨rfl, rfl⟩)
    | table hd hi hp =>
      obtain rfl := hd
      obtain rfl := hslot _ hi hp
      exact Or.inr (Or.inr ⟨rfl, rfl⟩)
    | page hd hi hpages _ hp _ =>
      obtain rfl := hd
      obtain rfl := hslot _ hi hp
      exact absurd hpages (by simp [HasPages])
  have hlt : ∀ {f}, f < 16 * pageSize → ¬ m.pmm.Free (f / pageSize) := fun hf =>
    h.low_used _ (Nat.div_lt_of_lt_mul (by rwa [Nat.mul_comm]))
  refine ⟨h.valid, rfl, fun d hd => ?_, hdvd, fun d hd => ?_, fun d hd => ?_, fun f r hr => ?_,
    fun f r hr => ?_, fun f r r' hr hr' => ?_, fun d hd i hi j _ hp => ?_,
    fun d hd i _ hi' hp => ?_, fun d hd i _ hi' j hj hp hpj => ?_⟩
  · obtain rfl := hd
    exact h.cr3_dvd
  · obtain rfl := hd
    exact hm.self.self
  · obtain rfl := hd
    exact hm.self.present
  · obtain ⟨-, hf⟩ | ⟨-, rfl⟩ | ⟨-, rfl⟩ := hplays f r hr
    · have := hlow f hf
      simp only [pageSize] at this
      omega
    · exact h0
    · exact h.table_pos
  · obtain ⟨-, hf⟩ | ⟨-, rfl⟩ | ⟨-, rfl⟩ := hplays f r hr
    · exact hused f hf
    · exact hlt h.cr3_lt
    · exact hlt h.table_lt
  · have hcr3 := h.cr3_lt
    have htable := h.table_lt
    obtain ⟨rfl, hf⟩ | ⟨rfl, hf⟩ | ⟨rfl, hf⟩ := hplays f r hr <;>
      obtain ⟨rfl, hf'⟩ | ⟨rfl, hf'⟩ | ⟨rfl, hf'⟩ := hplays f r' hr'
    -- the kernel lies above the tables of the boot loader
    · rfl
    · exact absurd (hf' ▸ hlow f hf) (not_le.2 hcr3)
    · exact absurd (hf' ▸ hlow f hf) (not_le.2 htable)
    · exact absurd (hf ▸ hlow f hf') (not_le.2 hcr3)
    · rfl
    · exact absurd (hf'.symm.trans hf) h.table_ne
    · exact absurd (hf ▸ hlow f hf') (not_le.2 htable)
    · exact absurd (hf.symm.trans hf') h.table_ne
    · rfl
  · obtain rfl := hd
    exact absurd (hslot i (hi.trans (by norm_num)) hp) hi.ne
  · obtain rfl := hd
    obtain rfl := hslot i hi' hp
    show perm (m.pde 768) = _
    rw [h.kernel, perm_or, perm_aligned (m.table_dvd 768)]
    rfl
  · obtain rfl := hd
    obtain rfl := hslot i hi' hp
    have hpage : m.pte 768 j = _ := h.pages j hj
    change isPresent (m.pte 768 j) = true at hpj
    show perm (m.pte 768 j) = _
    rw [hpage] at hpj ⊢
    split_ifs at hpj ⊢ with hj'
    · rw [perm_or, perm_aligned (Nat.dvd_mul_left ..)]
      rfl
    · rw [isPresent_zero] at hpj
      exact absurd hpj Bool.false_ne_true

end Gummy
