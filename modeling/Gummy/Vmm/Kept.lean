import Gummy.Vmm.Bytes

/-!
Bytes that stay where they are.

An allocation of pages takes nothing from what is mapped already, and a byte that is stored is seen
at one address of the space only.
-/

namespace Gummy

open CWord Machine
open Relation (ReflTransGen)

variable {m m' m'' : Machine} {D : Owners} {S : Set ℕ} {d i j v virt phys flags f : ℕ}

/-! ### One byte -/

/-- The byte that is mapped at `v` in the space `d` is still there. -/
def KeepsByte (d v : ℕ) (m m' : Machine) : Prop :=
  ∀ pa, (m.space d).translate v = some pa →
    (m'.space d).translate v = some pa ∧ m'.phys pa = m.phys pa

namespace KeepsByte

lemma refl (d v : ℕ) (m : Machine) : KeepsByte d v m m := fun _ hpa => ⟨hpa, rfl⟩

lemma trans (h : KeepsByte d v m m') (h' : KeepsByte d v m' m'') : KeepsByte d v m m'' := by
  intro pa hpa
  obtain ⟨htranslate, hphys⟩ := h pa hpa
  obtain ⟨htranslate', hphys'⟩ := h' pa htranslate
  exact ⟨htranslate', hphys'.trans hphys⟩

lemma isSome (h : KeepsByte d v m m') (hsome : ((m.space d).translate v).isSome) :
    ((m'.space d).translate v).isSome := by
  obtain ⟨pa, hpa⟩ := Option.isSome_iff_exists.1 hsome
  rw [(h pa hpa).1]
  rfl

/-- Which space is active does not matter. -/
lemma space (h : KeepsByte d v m m') (c c' : ℕ) : KeepsByte d v (m.space c) (m'.space c') := h

lemma of_phys (h : m'.phys = m.phys) : KeepsByte d v m m' := by
  intro pa hpa
  refine ⟨?_, by rw [h]⟩
  rw [← hpa]
  simp only [Machine.translate, Machine.space, h]
  rfl

/-- In the active space. -/
lemma loadByte (h : KeepsByte m.cr3 v m m') (hcr3 : m'.cr3 = m.cr3) {pa : ℕ}
    (hpa : m.translate v = some pa) : m'.loadByte v = m.loadByte v := by
  obtain ⟨htranslate, hphys⟩ := h pa hpa
  have hactive : m'.translate v = some pa := by
    have hspace : m'.space m.cr3 = m' := hcr3 ▸ space_cr3
    rwa [hspace] at htranslate
  rw [Machine.loadByte, Machine.loadByte, hpa, hactive]
  exact hphys

end KeepsByte

/-- The entries that map a page, and its bytes. -/
lemma Spaces.keepsByte (hd : d ∈ D) (hv : v < 0xFFC00000)
    (hpages : HasPages (getPdeIndex v))
    (hpde : isPresent (m.entry d (getPdeIndex v)) = true →
      isPresent (m.entry (frameAddr (m.entry d (getPdeIndex v))) (getPteIndex v)) = true →
      isPresent (m'.entry d (getPdeIndex v)) = true ∧
        frameAddr (m'.entry d (getPdeIndex v)) = frameAddr (m.entry d (getPdeIndex v)))
    (hpte : ∀ g, m.Plays D g (pageRole d (getPdeIndex v) (getPteIndex v)) →
      isPresent (m.entry d (getPdeIndex v)) = true →
      m'.entry (frameAddr (m.entry d (getPdeIndex v))) (getPteIndex v) =
        m.entry (frameAddr (m.entry d (getPdeIndex v))) (getPteIndex v) ∧
      ∀ x < pageSize, m'.phys (g + x) = m.phys (g + x)) : KeepsByte d v m m' := by
  intro pa hpa
  rw [translate_eq_walk, walk_space] at hpa ⊢
  split_ifs at hpa with hp
  · obtain rfl := Option.some.inj hpa
    have hplays := Plays.page hd (getPdeIndex_lt_window hv) hpages (getPteIndex_lt v) hp.1 hp.2
    obtain ⟨hpresent, hframe⟩ := hpde hp.1 hp.2
    obtain ⟨hentry, hbytes⟩ := hpte _ hplays hp.1
    rw [hframe, hentry, if_pos ⟨hpresent, hp.2⟩]
    exact ⟨rfl, hbytes _ (Nat.mod_lt v (by norm_num))⟩
  · cases hpa

/-- Edits of other slots. -/
lemma Elsewhere.keepsByte (h : Elsewhere D S m m') (hd : d ∈ D) (hv : v < 0xFFC00000)
    (hpages : HasPages (getPdeIndex v)) (hout : getPdeIndex v ∉ S) : KeepsByte d v m m' := by
  have hi := getPdeIndex_lt_window hv
  have hj := getPteIndex_lt v
  intro pa hpa
  rw [translate_eq_walk, walk_space] at hpa ⊢
  split_ifs at hpa with hp
  · obtain rfl := Option.some.inj hpa
    rw [h.pde d hd _ (hi.trans (by norm_num)) (.inr hout),
      h.pte d hd _ hi (.inr hout) hp.1 _ hj, if_pos hp]
    exact ⟨rfl, h.bytes d hd _ hi hpages (.inr hout) hp.1 _ hj hp.2 _ (Nat.mod_lt v (by norm_num))⟩
  · cases hpa

/-! ### One page -/

section Page

variable (h : Spaces m D) (hd : d ∈ D) (hv : v < 0xFFC00000) (hpages : HasPages (getPdeIndex v))

include h hd hv hpages

/-- An entry of another page is written. -/
lemma Spaces.keepsByte_setPte (hi : i < 1023) (hj : j < 1024) (hp : isPresent (m.pde i) = true)
    {w : ℕ} (hw : w < 2 ^ 32) (hne : ¬ (getPdeIndex v = i ∧ getPteIndex v = j)) :
    KeepsByte d v m (m.setPte i j w) := by
  have hk := getPdeIndex_lt_window hv
  have hpde := h.pde_setPte hi hj hp hw hd (hk.trans (by norm_num))
  refine Spaces.keepsByte hd hv hpages (fun hpk _ => ?_) fun g hg hpk => ⟨?_, fun x hx => ?_⟩
  · rw [hpde]
    exact ⟨hpk, rfl⟩
  · refine (h.pte_setPte hi hj hp hw hd hk (getPteIndex_lt v) hpk).resolve_left fun hnew => ?_
    obtain ⟨hsame, hsame', -⟩ := pageRole_inj hnew.2
    exact hne ⟨hsame, hsame'⟩
  · exact write32_frame _ (m.table_dvd i) (h.plays_dvd hg) (h.page_ne_table hg h.active hi hp) hj hx

/-- A directory entry gets more permissions. -/
lemma Spaces.keepsByte_allow (hi : i < 1023) (hp : isPresent (m.pde i) = true)
    (hflags : flags < pageSize) : KeepsByte d v m (m.setPde i (m.pde i ||| flags)) := by
  have hk := getPdeIndex_lt_window hv
  obtain ⟨hframe, hpresent⟩ := h.frame_allow hi hp hflags hd (hk.trans (by norm_num))
  refine Spaces.keepsByte hd hv hpages (fun hpk _ => ?_) fun g hg hpk => ⟨?_, fun x hx => ?_⟩
  · rw [hpresent, hframe]
    exact ⟨hpk, rfl⟩
  · exact h.pte_allow hi hflags hd hk (getPteIndex_lt v) hpk
  · exact write32_frame _ (h.dir_dvd _ h.active) (h.plays_dvd hg) (h.page_ne_dir hg h.active)
      (hi.trans (by norm_num)) hx

/-- A slot without a table gets one. -/
lemma Spaces.keepsByte_newTable (hi : i < 1023) (hp : ¬ isPresent (m.pde i) = true)
    (hflags : flags < pageSize) (hf : Spare m D f) :
    KeepsByte d v m (m.addTable i f flags m.pmm) := by
  have hk := getPdeIndex_lt_window hv
  refine Spaces.keepsByte hd hv hpages (fun hpk _ => ?_) fun g hg hpk => ⟨?_, fun x hx => ?_⟩
  · rw [h.pde_newTable hi hflags hf hd (hk.trans (by norm_num)), if_neg]
    · exact ⟨hpk, rfl⟩
    · rintro ⟨rfl, heq⟩
      rw [heq] at hpk
      exact hp hpk
  · exact h.pte_newTable hi hflags hf hd hk (getPteIndex_lt v) hpk
  · have hne : g ≠ f := fun heq => hf.unplayed _ (heq ▸ hg)
    exact (clearFrame_frame _ hf.dvd (h.plays_dvd hg) hne hx).trans (write32_frame _
      (h.dir_dvd _ h.active) (h.plays_dvd hg) (h.page_ne_dir hg h.active)
      (hi.trans (by norm_num)) hx)

/-- An empty table goes. -/
lemma Spaces.keepsByte_dropTable (hi : i < 1023) (hempty : m.tableEmpty i = true) :
    KeepsByte d v m (m.dropTable i) := by
  have hk := getPdeIndex_lt_window hv
  refine Spaces.keepsByte hd hv hpages (fun hpk hpl => ?_) fun g hg hpk => ⟨?_, fun x hx => ?_⟩
  · rw [h.pde_dropTable hi hd (hk.trans (by norm_num)), if_neg]
    · exact ⟨hpk, rfl⟩
    · rintro ⟨rfl, rfl⟩
      exact tableEmpty_iff.1 hempty _ (getPteIndex_lt v) hpl
  · exact h.pte_dropTable hi hd hk (getPteIndex_lt v) hpk
  · exact write32_frame _ (h.dir_dvd _ h.active) (h.plays_dvd hg) (h.page_ne_dir hg h.active)
      (hi.trans (by norm_num)) hx

/-- `vmm_map` of another page, with a page table. -/
lemma Spaces.keepsByte_vmmMap_present (hvirt : virt < 0xFFC00000) (hflags : flags < pageSize)
    (hphys : Spare m D phys) (hfit : FlagsFit virt flags)
    (hp : isPresent (m.pde (getPdeIndex virt)) = true) (hne : v / pageSize ≠ virt / pageSize) :
    KeepsByte d v m (vmmMap m virt phys flags).2 := by
  have hi := getPdeIndex_lt_window hvirt
  have hallow : Edit D Set.univ m
      (m.setPde (getPdeIndex virt) (m.pde (getPdeIndex virt) ||| flags)) :=
    .allow (Set.mem_univ _) hi hp hflags hfit
  have hor : m.pde (getPdeIndex virt) ||| flags < 2 ^ 32 :=
    Nat.or_lt_two_pow (m.pde_lt _) (hflags.trans (by norm_num))
  have hpresent : isPresent ((m.setPde (getPdeIndex virt)
      (m.pde (getPdeIndex virt) ||| flags)).pde (getPdeIndex virt)) = true := by
    rw [pde_setPde_self hor, isPresent_or, hp, Bool.true_or]
  rw [vmmMap_of_present h.activePaging.self hvirt (hflags.trans (by norm_num)) hp]
  refine (h.keepsByte_allow hd hv hpages hi hp hflags).trans ?_
  exact (hallow.spaces h).keepsByte_setPte hd hv hpages hi (getPteIndex_lt virt) hpresent
    (newEntry_lt hphys.lt hflags) fun hsame => hne (page_eq_iff.1 hsame)

/-- `vmm_map` of another page. -/
lemma Spaces.keepsByte_vmmMap (hvirt : virt < 0xFFC00000) (hflags : flags < pageSize)
    (hphys : Spare m D phys) (hfit : FlagsFit virt flags) (hne : v / pageSize ≠ virt / pageSize) :
    KeepsByte d v m (vmmMap m virt phys flags).2 := by
  by_cases hp : isPresent (m.pde (getPdeIndex virt)) = true
  · exact h.keepsByte_vmmMap_present hd hv hpages hvirt hflags hphys hfit hp hne
  obtain ⟨halloc, -⟩ | ⟨g, pmm, halloc, hfree, -, hpmm, -, htake, hspare⟩ :=
    h.alloc (S := Set.univ)
  · rw [vmmMap_full h.activePaging.self (hvirt.trans (by norm_num)) hp halloc]
    exact .refl _ _ _
  · have hi := getPdeIndex_lt_window hvirt
    have h' := htake.spaces h
    have hne' : phys ≠ g * pageSize := by
      rintro rfl
      refine hphys.used ?_
      rwa [Nat.mul_div_cancel g (by norm_num)]
    have hphys' := Spare.newTable h' hi hflags hspare
      (hphys.withPmm fun k hk => ((hpmm k).1 hk).1) hne'
    have hf := h.activePaging.newFrame
      (Nat.pos_of_ne_zero fun h0 => h.valid.zero_used (h0 ▸ hfree)) hfree
    have hpresent := isPresent_addTable (i := getPdeIndex virt) pmm h.activePaging.self.cr3_dvd
      hf (hi.trans (by norm_num)) hflags
    have hnew : Edit D Set.univ { m with pmm }
        (m.addTable (getPdeIndex virt) (g * pageSize) flags pmm) :=
      .newTable (Set.mem_univ _) hi hp hflags hfit hspare
    rw [vmmMap_new h.activePaging.self hvirt hflags hp halloc hf]
    have hadd : KeepsByte d v { m with pmm }
        (m.addTable (getPdeIndex virt) (g * pageSize) flags pmm) :=
      h'.keepsByte_newTable hd hv hpages hi hp hflags hspare
    exact ((KeepsByte.of_phys rfl).trans hadd).trans ((hnew.spaces h').keepsByte_vmmMap_present hd
      hv hpages hvirt hflags hphys' hfit hpresent hne)

/-- `vmm_unmap` of another page. -/
lemma Spaces.keepsByte_vmmUnmap (hvirt : virt < 0xFFC00000)
    (hne : v / pageSize ≠ virt / pageSize) : KeepsByte d v m (vmmUnmap m virt).2 := by
  have hvirt32 : virt < 2 ^ 32 := hvirt.trans (by norm_num)
  have hi := getPdeIndex_lt_window hvirt
  have hj := getPteIndex_lt virt
  by_cases hp : isPresent (m.pde (getPdeIndex virt)) = true ∧
      isPresent (m.pte (getPdeIndex virt) (getPteIndex virt)) = true
  · have ht := h.activePaging.table_ne _ hi hp.1
    have hset := h.keepsByte_setPte hd hv hpages hi hj hp.1 (by norm_num : 0 < 2 ^ 32)
      fun hsame => hne (page_eq_iff.1 hsame)
    have hclear : Edit D Set.univ m (m.setPte (getPdeIndex virt) (getPteIndex virt) 0) :=
      .unmap (Set.mem_univ _) hi hj hp.1
    rw [vmmUnmap_of_present h.activePaging.self hvirt32 ht hp.1 hp.2]
    split_ifs with hempty
    · exact hset.trans ((hclear.spaces h).keepsByte_dropTable hd hv hpages hi hempty.1)
    · exact hset
  · rw [vmmUnmap_of_absent h.activePaging.self hvirt32 hp]
    exact .refl _ _ _

/-- The rollback unmaps other pages. -/
lemma Spaces.keepsByte_unmapPages {page n : ℕ} (hend : page + n * pageSize ≤ 0xFFC00000)
    (hne : ∀ k < n, v / pageSize ≠ (page + k * pageSize) / pageSize) :
    KeepsByte d v m (unmapPages m page n) := by
  have hS : SlotsIn Set.univ page n := ⟨hend, fun _ _ => Set.mem_univ _⟩
  have hfold : ∀ l : List ℕ, (∀ k ∈ l, k < n) → ∀ m : Machine, Spaces m D →
      KeepsByte d v m (l.foldl (fun m k => unmapPage m (page + k * pageSize)) m) := by
    intro l
    induction l with
    | nil =>
      intro _ m _
      exact .refl _ _ _
    | cons k l ih =>
      intro hl m hm
      have hk : k < n := hl k List.mem_cons_self
      have hspaces := Edits.spaces hm (hm.edits_vmmUnmap (S := Set.univ) (hS.lt hk) (hS.2 k hk))
      exact (hm.keepsByte_vmmUnmap hd hv hpages (hS.lt hk) (hne k hk)).trans
        (ih (fun k' hk' => hl k' (List.mem_cons_of_mem k hk')) _ hspaces)
  exact hfold (List.range n) (fun k hk => List.mem_range.1 hk) m h

/-- The mapping loop maps other pages, `t` of which are done. -/
lemma Spaces.keepsByte_mapRun {t n : ℕ} (firstPage : ℕ) (hflags : flags < pageSize)
    (hend : firstPage + (t + n) * pageSize ≤ 0xFFC00000)
    (hfit : ∀ k < t + n, FlagsFit (firstPage + k * pageSize) flags)
    (hne : ∀ k < t + n, v / pageSize ≠ (firstPage + k * pageSize) / pageSize) :
    KeepsByte d v m (mapRun flags firstPage n (firstPage + t * pageSize) m).2 := by
  have hS : SlotsIn Set.univ firstPage (t + n) := ⟨hend, fun _ _ => Set.mem_univ _⟩
  induction n generalizing m t with
  | zero => exact .refl _ _ _
  | succ n ih =>
    have ht : t < t + (n + 1) := by omega
    have hlt := hS.lt ht
    have hback : (firstPage + t * pageSize - firstPage) / pageSize = t := by
      rw [Nat.add_sub_cancel_left, Nat.mul_div_cancel t (by norm_num)]
    have hnext : firstPage + t * pageSize + pageSize = firstPage + (t + 1) * pageSize := by ring
    have hroll := (hS.mono ht.le).1
    have hne' : ∀ k < t, v / pageSize ≠ (firstPage + k * pageSize) / pageSize :=
      fun k hk => hne k (hk.trans ht)
    unfold mapRun
    dsimp only
    rw [hback, hnext]
    obtain ⟨halloc, -⟩ | ⟨g, pmm, halloc, hfree, -, -, -, htake, hspare⟩ := h.alloc (S := Set.univ)
    · rw [halloc, if_pos rfl]
      exact h.keepsByte_unmapPages hd hv hpages hroll hne'
    · have h' := htake.spaces h
      have htaken : KeepsByte d v m { m with pmm } := .of_phys rfl
      obtain ⟨hedits, hfail⟩ := h'.edits_vmmMap hlt (hS.2 t ht) hflags (hfit t ht) hspare
      have hmap := h'.keepsByte_vmmMap hd hv hpages hlt hflags hspare (hfit t ht) (hne t ht)
      rw [halloc, if_neg hspare.ne_zero]
      dsimp only
      rcases hr : vmmMap { m with pmm } (firstPage + t * pageSize) (g * pageSize) flags with
        ⟨ok, m'⟩
      rw [hr] at hedits hfail hmap
      cases ok with
      | false =>
        obtain rfl : m' = { m with pmm } := hfail rfl
        have hgive : Edit D Set.univ { m with pmm } _ := .free hspare
        refine (htaken.trans (.of_phys rfl)).trans ?_
        exact (hgive.spaces h').keepsByte_unmapPages hd hv hpages hroll hne'
      | true =>
        have hsum : t + 1 + n = t + (n + 1) := by omega
        refine (htaken.trans hmap).trans (ih (hedits.spaces h') (hsum.symm ▸ hend) ?_ ?_ ?_)
        · intro k hk
          exact hfit k (by omega)
        · intro k hk
          exact hne k (by omega)
        · rwa [hsum]

end Page

/-- **What is mapped in the active space stays there when pages are allocated**, whether that
succeeds or not. -/
theorem Spaces.keepsByte_region {n regionStart regionEnd : ℕ} (h : Spaces m D)
    (hflags : flags < pageSize) (hstart : regionStart ≤ 0xFFC00000) (hend : regionEnd ≤ 0xFFC00000)
    (hfit : ∀ v < regionEnd, regionStart ≤ v → FlagsFit v flags) (hv : v < 0xFFC00000)
    (hpages : HasPages (getPdeIndex v)) :
    KeepsByte m.cr3 v m (vmmAllocPagesRegion n flags regionStart regionEnd m).2 := by
  unfold vmmAllocPagesRegion
  split_ifs with hn
  · exact .refl _ _ _
  dsimp only
  split_ifs
  · exact .refl _ _ _
  cases hfind : findRun m n ((alignDown 32 regionEnd pageSize - alignUp 32 regionStart pageSize) /
      pageSize) (alignUp 32 regionStart pageSize) 0 0 with
  | none => exact .refl _ _ _
  | some firstPage =>
    obtain ⟨-, hge, hle, hfree⟩ := findRun_region hn hstart hend hfind
    have hin : ∀ k < n, firstPage + k * pageSize < regionEnd := by
      intro k hk
      have hmul : k * pageSize + pageSize ≤ n * pageSize := by
        rw [← Nat.succ_mul]
        exact Nat.mul_le_mul_right _ hk
      simp only [pageSize] at hle hmul ⊢
      omega
    have hkeep : KeepsByte m.cr3 v m (mapRun flags firstPage n firstPage m).2 := by
      intro pa hpa
      -- a page of the run has no mapping
      have hne : ∀ k < n, v / pageSize ≠ (firstPage + k * pageSize) / pageSize := by
        intro k hk hsame
        have hunmapped := hfree k hk
        rw [h.activePaging.self.pageMapped_eq ((hin k hk).trans_le (hend.trans (by norm_num)))]
          at hunmapped
        obtain ⟨hi, hj⟩ := page_eq_iff.2 hsame
        have hpa' : m.translate v = some pa := hpa
        rw [translate_eq_walk, walk, hi, hj] at hpa'
        rw [entryOf] at hunmapped
        split_ifs at hpa' hunmapped with hp
        · cases hunmapped
        · cases hpa'
      have hrun := h.keepsByte_mapRun (t := 0) (n := n) h.active hv hpages firstPage hflags
        (by rw [Nat.zero_add]; exact hle.trans hend)
        (fun k hk => hfit _ (hin k (by omega)) (hge.trans (Nat.le_add_right ..)))
        fun k hk => hne k (by omega)
      rw [Nat.zero_mul, Nat.add_zero] at hrun
      exact hrun pa hpa
    dsimp only
    rcases hr : mapRun flags firstPage n firstPage m with ⟨ok, m'⟩
    rw [hr] at hkeep
    cases ok <;> exact hkeep

/-! ### Stores -/

lemma SameTables.translate_eq (h : SameTables D m m') (hd : d ∈ D) (hv : v < 0xFFC00000) :
    (m'.space d).translate v = (m.space d).translate v := by
  have hi := getPdeIndex_lt_window hv
  have hpde := h.pde d hd _ (hi.trans (by norm_num))
  rw [translate_eq_walk, translate_eq_walk, walk_space, walk_space, hpde]
  by_cases hp : isPresent (m.entry d (getPdeIndex v)) = true
  · rw [h.pte d hd _ hi hp _ (getPteIndex_lt v)]
  · rw [if_neg fun h' => hp h'.1, if_neg fun h' => hp h'.1]

namespace Stores

lemma translate_eq (h : Stores D S m m') (hactive : m.cr3 ∈ D) (hv : v < 0xFFC00000) :
    m'.translate v = m.translate v := by
  have htranslate := h.tables.translate_eq hactive hv
  have hspace : m'.space m.cr3 = m' := h.cr3 ▸ space_cr3
  rwa [hspace] at htranslate

end Stores

end Gummy
