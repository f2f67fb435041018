import Gummy.Kernel.Spawning
import Gummy.Vmm.Kept

/-!
The upper half of the address spaces.

`vmm_clone` copies the entries of the upper half once, and `vmm_map` makes a new table in the
active directory only.  The spaces share their upper half as long as the kernel, while there is
more than one of them, maps pages only where a table has been made before.
-/

namespace Gummy

open CWord Machine

open Transition (Reachable)

variable {K : Set ℕ} {s s' s'' : Kernel} {P : List ℕ} {S Q : Set ℕ} {d k p : ℕ}
  {L : QueueRef → List ThreadRef} {D : List (ℕ × ℕ)}

/-! ### Tables -/

/-- The page table that entry `k` of the directory `d` names. -/
def Machine.tableOf (m : Machine) (d k : ℕ) : Option ℕ :=
  if isPresent (m.entry d k) then some (frameAddr (m.entry d k)) else none

section Edits

variable {m m' : Machine} {O : Owners}

lemma Machine.tableOf_congr (h : m'.entry d k = m.entry d k) : m'.tableOf d k = m.tableOf d k := by
  rw [tableOf, tableOf, h]

lemma Machine.tableOf_isSome : (m.tableOf d k).isSome = isPresent (m.entry d k) := by
  unfold tableOf
  split_ifs with h <;> simp [h]

/-- An edit of slots that have tables makes no new one. -/
lemma Edit.tableOf (h : Spaces m O) (he : Edit O S m m')
    (hS : ∀ i ∈ S, 768 ≤ i → isPresent (m.pde i) = true) (hd : d ∈ O) (hk : 768 ≤ k)
    (hk' : k < 1023) : m'.tableOf d k = m.tableOf d k := by
  have hlt : k < 1024 := hk'.trans (by norm_num)
  cases he with
  | take hvalid hfree => rfl
  | free hf => rfl
  | @newTable i f flags hi hi' hp hflags hkernel hf =>
    refine Machine.tableOf_congr ?_
    rw [h.pde_newTable hi' hflags hf hd hlt, if_neg]
    rintro ⟨-, rfl⟩
    exact hp (hS k hi hk)
  | @allow i flags hi hi' hp hflags hkernel =>
    obtain ⟨hframe, hpresent⟩ := h.frame_allow hi' hp hflags hd hlt
    rw [Machine.tableOf, Machine.tableOf, hframe, hpresent]
  | map hi hi' hj hp hflags hkernel hcovers hf =>
    exact Machine.tableOf_congr (h.pde_setPte hi' hj hp (newEntry_lt hf.lt hflags) hd hlt)
  | unmap hi hi' hj hp =>
    exact Machine.tableOf_congr (h.pde_setPte hi' hj hp (by norm_num) hd hlt)
  | @dropTable i hi hi' hp hempty =>
    refine Machine.tableOf_congr ?_
    rw [h.pde_dropTable (hi'.trans (by norm_num)) hd hlt, if_neg]
    omega

lemma Edits.tableOf (h : Spaces m O) (he : Edits O S m m')
    (hS : ∀ i ∈ S, 768 ≤ i → i < 1023 ∧ isPresent (m.pde i) = true) :
    ∀ d ∈ O, ∀ k, 768 ≤ k → k < 1023 → m'.tableOf d k = m.tableOf d k := by
  induction he with
  | refl => exact fun _ _ _ _ _ => rfl
  | @tail m₁ m₂ hs he ih =>
    intro d hd k hk hk'
    have hspaces : Spaces m₁ O := Edits.spaces h hs
    have hcr3 : m₁.cr3 = m.cr3 := Edits.cr3 hs
    refine (he.tableOf hspaces (fun i hi hi' => ?_) hd hk hk').trans (ih d hd k hk hk')
    -- the tables of these slots are still there
    obtain ⟨hlt, hp⟩ := hS i hi hi'
    have hsame := congrArg Option.isSome (ih m.cr3 h.active i hi' hlt)
    rw [Machine.tableOf_isSome, Machine.tableOf_isSome] at hsame
    rw [pde, hcr3]
    exact hsame.trans hp

end Edits

/-! ### What keeps the upper half -/

/-- The processes `Q` keep their directories, and these the tables of their upper halves.  The bytes
of the heap stay where they are, and where it has grown there are pages. -/
structure KeepsUpper (Q : Set ℕ) (s s' : Kernel) : Prop where
  stop : s.heap.stop ≤ s'.heap.stop
  cr3 : ∀ q ∈ Q, (s'.proc q).cr3 = (s.proc q).cr3
  tables : ∀ q ∈ Q, ∀ k, 768 ≤ k → k < 1023 →
    s'.mach.tableOf (s.proc q).cr3 k = s.mach.tableOf (s.proc q).cr3 k
  bytes : ∀ q ∈ Q, ∀ v, heapBase ≤ v → v < 0xFFC00000 →
    KeepsByte (s.proc q).cr3 v s.mach s'.mach
  grown : ∀ q ∈ Q, ∀ v, heapBase ≤ v → s.heap.stop ≤ v → v < s'.heap.stop → v < 0xFFC00000 →
    ((s'.mach.space (s.proc q).cr3).translate v).isSome

namespace KeepsUpper

lemma refl (Q : Set ℕ) (s : Kernel) : KeepsUpper Q s s :=
  ⟨le_rfl, fun _ _ => rfl, fun _ _ _ _ _ => rfl, fun _ _ _ _ _ => .refl _ _ _,
    fun _ _ _ _ hge hlt _ => absurd hlt (not_lt.2 hge)⟩

lemma trans (h : KeepsUpper Q s s') (h' : KeepsUpper Q s' s'') : KeepsUpper Q s s'' := by
  refine ⟨h.stop.trans h'.stop, fun q hq => (h'.cr3 q hq).trans (h.cr3 q hq),
    fun q hq k hk hk' => ?_, fun q hq v hv hv' => ?_, fun q hq v hv hge hlt hv' => ?_⟩
  · have htable := h'.tables q hq k hk hk'
    rw [h.cr3 q hq] at htable
    exact htable.trans (h.tables q hq k hk hk')
  · have hbytes := h'.bytes q hq v hv hv'
    rw [h.cr3 q hq] at hbytes
    exact (h.bytes q hq v hv hv').trans hbytes
  · by_cases hstop : v < s'.heap.stop
    · have hbytes := h'.bytes q hq v hv hv'
      rw [h.cr3 q hq] at hbytes
      exact hbytes.isSome (h.grown q hq v hv hge hstop hv')
    · have hgrown := h'.grown q hq v hv (not_lt.1 hstop) hlt hv'
      rwa [h.cr3 q hq] at hgrown

lemma mono {Q' : Set ℕ} (h : KeepsUpper Q s s') (hQ : Q' ⊆ Q) : KeepsUpper Q' s s' :=
  ⟨h.stop, fun q hq => h.cr3 q (hQ hq), fun q hq => h.tables q (hQ hq),
    fun q hq => h.bytes q (hQ hq), fun q hq => h.grown q (hQ hq)⟩

lemma of_phys (hcr3 : ∀ q ∈ Q, (s'.proc q).cr3 = (s.proc q).cr3)
    (hphys : s'.mach.phys = s.mach.phys) (hstop : s'.heap.stop = s.heap.stop) :
    KeepsUpper Q s s' := by
  refine ⟨hstop.ge, hcr3, fun q _ k _ _ => Machine.tableOf_congr ?_, fun _ _ _ _ _ =>
    .of_phys hphys, fun q _ v _ hge hlt => absurd hlt (by omega)⟩
  rw [entry, entry, hphys]

lemma heapPut (h : KeepsUpper Q s s') (addr : ℕ) : KeepsUpper Q s (heapPut addr s') :=
  h.trans (.of_phys (fun _ _ => rfl) rfl rfl)

/-- Changes of queues, of a thread and of other fields of a process. -/
lemma retire (h : KeepsUpper Q s s') (Q' : Queues QueueRef ThreadRef) (p : ℕ)
    {f : Process → Process} (hf : ∀ x, (f x).cr3 = x.cr3) (t : ThreadRef) (g : Thread → Thread) :
    KeepsUpper Q s (({ s' with queues := Q' }.setProc p f).setThread t g) := by
  refine h.trans (.of_phys (fun q _ => ?_) rfl rfl)
  change (({ s' with queues := Q' }.setProc p f).proc q).cr3 = _
  by_cases hq : q = p
  · rw [hq, Kernel.setProc_self, hf]
  · rw [Kernel.setProc_of_ne _ _ hq]

end KeepsUpper

/-- Spaces with the same tables agree on the upper half. -/
lemma Machine.translate_of_tableOf {m : Machine} {d d' virt : ℕ}
    (h : m.tableOf d (getPdeIndex virt) = m.tableOf d' (getPdeIndex virt)) :
    (m.space d).translate virt = (m.space d').translate virt := by
  have hpresent := congrArg Option.isSome h
  rw [tableOf_isSome, tableOf_isSome] at hpresent
  rw [translate, translate]
  rw [getPdeIndex_eq] at h hpresent
  change (if isPresent (m.entry d (virt / 2 ^ 22)) = true then _ else _) =
    if isPresent (m.entry d' (virt / 2 ^ 22)) = true then _ else _
  by_cases hp : isPresent (m.entry d (virt / 2 ^ 22)) = true
  · have hp' := hpresent ▸ hp
    rw [tableOf, tableOf, if_pos hp, if_pos hp'] at h
    have hframe : frameAddr (m.entry d (virt / 2 ^ 22)) =
        frameAddr (m.entry d' (virt / 2 ^ 22)) := Option.some.inj h
    rw [if_pos hp, if_pos hp']
    exact congrArg (fun f =>
      let pte := m.phys.read32 (f + 4 * (virt / 2 ^ 12 % 2 ^ 10))
      if isPresent pte = true then some (frameAddr pte + virt % 2 ^ 12) else none) hframe
  · rw [if_neg hp, if_neg (hpresent ▸ hp)]

lemma upper_slot {v : ℕ} (hge : heapBase ≤ v) (hlt : v < 0xFFC00000) :
    896 ≤ getPdeIndex v ∧ getPdeIndex v < 1023 := by
  simp only [heapBase] at hge
  rw [getPdeIndex_eq]
  omega

/-- Any two of the processes `P` have the same tables in the upper half, and the pages of the heap
from `b` on are mapped. -/
structure Upper (b : ℕ) (P : List ℕ) (s : Kernel) : Prop where
  tables : ∀ p ∈ P, ∀ q ∈ P, ∀ k, 768 ≤ k → k < 1023 →
    s.mach.tableOf (s.proc p).cr3 k = s.mach.tableOf (s.proc q).cr3 k
  heap : ∀ p ∈ P, ∀ v, heapBase ≤ v → b ≤ v → v < s.heap.stop → v < 0xFFC00000 →
    ((s.mach.space (s.proc p).cr3).translate v).isSome

namespace Upper

variable {b : ℕ}

lemma keeps (h : Upper b P s) (hkeep : KeepsUpper {q | q ∈ P} s s') : Upper b P s' := by
  refine ⟨fun p hp q hq k hk hk' => ?_, fun p hp v hv hb hlt hv' => ?_⟩
  · rw [hkeep.cr3 p hp, hkeep.cr3 q hq, hkeep.tables p hp k hk hk', hkeep.tables q hq k hk hk']
    exact h.tables p hp q hq k hk hk'
  · rw [hkeep.cr3 p hp]
    by_cases hstop : v < s.heap.stop
    · exact (hkeep.bytes p hp v hv hv').isSome (h.heap p hp v hv hb hstop hv')
    · exact hkeep.grown p hp v hv (not_lt.1 hstop) hlt hv'

lemma mono {P' : List ℕ} (h : Upper b P s) (hP : ∀ p ∈ P', p ∈ P) : Upper b P' s :=
  ⟨fun p hp q hq => h.tables p (hP p hp) q (hP q hq), fun p hp => h.heap p (hP p hp)⟩

/-- Two of the spaces agree on the upper half. -/
lemma translate_eq (h : Upper b P s) {p q v : ℕ} (hp : p ∈ P) (hq : q ∈ P)
    (hge : 0xC0000000 ≤ v) (hlt : v < 0xFFC00000) :
    (s.mach.space (s.proc p).cr3).translate v = (s.mach.space (s.proc q).cr3).translate v := by
  refine Machine.translate_of_tableOf (h.tables p hp q hq _ ?_ ?_) <;> rw [getPdeIndex_eq] <;> omega

/-- What is kept in one of the spaces is kept in the others. -/
lemma keepsByte (h : Upper b P s) {p q v : ℕ} (hp : p ∈ P) (hq : q ∈ P)
    (hsame : ∀ q ∈ P, ∀ k, 768 ≤ k → k < 1023 →
      s'.mach.tableOf (s.proc q).cr3 k = s.mach.tableOf (s.proc q).cr3 k)
    (hge : heapBase ≤ v) (hlt : v < 0xFFC00000)
    (hkeep : KeepsByte (s.proc q).cr3 v s.mach s'.mach) :
    KeepsByte (s.proc p).cr3 v s.mach s'.mach ∧
      (s'.mach.space (s.proc p).cr3).translate v = (s'.mach.space (s.proc q).cr3).translate v := by
  have hk : 768 ≤ getPdeIndex v ∧ getPdeIndex v < 1023 := by
    have hslot := upper_slot hge hlt
    omega
  have htable := h.tables p hp q hq _ hk.1 hk.2
  have htable' : s'.mach.tableOf (s.proc p).cr3 (getPdeIndex v) =
      s'.mach.tableOf (s.proc q).cr3 (getPdeIndex v) := by
    rw [hsame p hp _ hk.1 hk.2, hsame q hq _ hk.1 hk.2, htable]
  refine ⟨fun pa hpa => ?_, Machine.translate_of_tableOf htable'⟩
  rw [Machine.translate_of_tableOf htable] at hpa
  rw [Machine.translate_of_tableOf htable']
  exact hkeep pa hpa

end Upper

namespace Memory

variable {b : ℕ}

/-- Edits of slots that have tables make no new ones. -/
lemma sameTables (h : Memory K s P)
    (hS : ∀ i ∈ S, 768 ≤ i → i < 1023 ∧ isPresent (s.mach.pde i) = true)
    (he : Edits (s.owners P K) S s.mach s'.mach) : ∀ q ∈ P, ∀ k, 768 ≤ k → k < 1023 →
      s'.mach.tableOf (s.proc q).cr3 k = s.mach.tableOf (s.proc q).cr3 k :=
  fun _ hq => Edits.tableOf h.spaces he hS _ (mem_owners hq)

/-- The active space is that of one of the processes. -/
lemma exists_active (h : Memory K s P) : ∃ q ∈ P, (s.proc q).cr3 = s.mach.cr3 := h.spaces.active

/-- Edits of the lower half. -/
lemma keepsUpper_lower (h : Memory K s P) (hs : SameOwners P s s')
    (hstop : s'.heap.stop = s.heap.stop) (hS : ∀ i ∈ S, i < 768)
    (hd : d ∈ s.owners P K) (he : EditsIn (s.owners P K) S d s.mach s'.mach) :
    KeepsUpper {q | q ∈ P} s s' := by
  refine ⟨hstop.ge, hs.cr3, fun q hq k hk hk' => Machine.tableOf_congr ?_, fun q hq v hv hv' => ?_,
    fun q _ v _ hge hlt => absurd hlt (by omega)⟩
  · refine he.entry_eq h.spaces hd (mem_owners hq) (hk'.trans (by norm_num)) (Or.inr fun hkS => ?_)
    exact absurd (hS k hkS) (not_lt.2 hk)
  · obtain ⟨hslot, -⟩ := upper_slot hv hv'
    refine (he.elsewhere h.spaces hd).keepsByte (mem_owners hq) hv' (.inr hslot) fun hkS => ?_
    exact absurd (hS _ hkS) (by omega)

end Memory

/-! ### The heap grows -/

/-- The pages from `start` to `stop`, as far as they can be mapped, lie in slots that have a table
in the active directory. -/
def Kernel.Tabled (s : Kernel) (start stop : ℕ) : Prop :=
  ∀ v, start ≤ v → v < stop → v < 0xFFC00000 → isPresent (s.mach.pde (getPdeIndex v)) = true

/-- The pages from `start` to `stop` find tables, or there is only one space. -/
def Kernel.FindsTables (s : Kernel) (start stop : ℕ) : Prop :=
  s.processes = [idleProcess] ∨ s.Tabled start stop

/-- `heap_expand` at the end of the heap, by `pages` pages, finds tables. -/
def Kernel.Grows (s : Kernel) (pages : ℕ) : Prop :=
  s.FindsTables s.heap.stop (s.heap.stop + pages * pageSize)

lemma Kernel.Tabled.mono {start stop start' stop' : ℕ} (h : s.Tabled start stop)
    (hstart : start ≤ start') (hstop : stop' ≤ stop) : s.Tabled start' stop' :=
  fun v hv hv' => h v (hstart.trans hv) (hv'.trans_le hstop)

/-- Tables of the running process stay. -/
lemma Kernel.Tabled.keeps {start stop : ℕ} (h : s.Tabled start stop) (hstart : 0xC0000000 ≤ start)
    (hkeep : KeepsUpper Q s s') {q : ℕ} (hq : q ∈ Q) (hcr3 : s.mach.cr3 = (s.proc q).cr3)
    (hcr3' : s'.mach.cr3 = (s'.proc q).cr3) : s'.Tabled start stop := by
  intro v hv hv' hlt
  have hk : 768 ≤ getPdeIndex v ∧ getPdeIndex v < 1023 := by
    rw [getPdeIndex_eq]
    omega
  have heq := congrArg Option.isSome (hkeep.tables q hq _ hk.1 hk.2)
  rw [tableOf_isSome, tableOf_isSome, ← hcr3] at heq
  rw [pde, hcr3', hkeep.cr3 q hq, ← hcr3]
  exact heq.trans (h v hv hv' hlt)

/-- In the active space the bytes of the heap stay, and where it has grown there are pages. -/
structure GrowsActive (s s' : Kernel) : Prop where
  cr3 : s'.mach.cr3 = s.mach.cr3
  bytes : ∀ v, heapBase ≤ v → v < 0xFFC00000 → KeepsByte s.mach.cr3 v s.mach s'.mach
  grown : ∀ v, s.heap.stop ≤ v → v < s'.heap.stop → (s'.mach.translate v).isSome

lemma isSome_of_pageEntry {m : Machine} {v x : ℕ} (h : m.pageEntry v = some x) :
    (m.translate v).isSome := by
  rw [pageEntry, entryOf] at h
  split_ifs at h with hp
  rw [translate_eq_walk, walk, if_pos hp]
  rfl

namespace Memory

variable {b : ℕ}

lemma heapGet_stop (size : ℕ) (c : HeapChoice) (s : Kernel) :
    (Gummy.heapGet size c s).2.heap.stop = (heapGrow c.pages s).heap.stop := by
  unfold Gummy.heapGet
  dsimp only
  split_ifs <;> rfl

/-- `heap_expand` -/
lemma growsActive_heapGrow (h : Memory K s P) (pages : ℕ) : GrowsActive s (heapGrow pages s) := by
  have hbase := h.base
  unfold Gummy.heapGrow
  dsimp only
  split_ifs with hstop hres
  · exact ⟨rfl, fun v _ _ => .refl _ _ _, fun v hge hlt => absurd hlt (not_lt.2 hge)⟩
  all_goals
    have hlt := not_le.1 (not_or.1 hstop).2
    have hkeep : ∀ v, heapBase ≤ v → v < 0xFFC00000 → KeepsByte s.mach.cr3 v s.mach
        (vmmAllocPagesRegion pages (vmmFlagsRw ||| vmmFlagsPresent) s.heap.stop
          (s.heap.stop + pages * pageSize) s.mach).2 := fun v hv hv' =>
      h.spaces.keepsByte_region (by decide) (by omega) hlt.le (fun _ _ _ _ => by decide) hv'
        (.inr (upper_slot hv hv').1)
  · refine ⟨vmmAllocPagesRegion_cr3 .., hkeep, fun v hge hv => ?_⟩
    have hS : SlotsIn heapSlots s.heap.stop pages := by
      refine ⟨hlt.le, fun k hk => ?_⟩
      have hmul := Nat.mul_lt_mul_of_pos_right hk (show 0 < pageSize by norm_num)
      simp only [heapSlots, Set.mem_ofPred_eq, getPdeIndex_eq, heapBase] at hbase ⊢
      omega
    obtain ⟨hok, -⟩ := @Spaces.region_spec s.mach _ heapSlots (vmmFlagsRw ||| vmmFlagsPresent) pages
      s.heap.stop h.spaces (by decide) (fun h0 => hstop (.inl h0)) h.stop_dvd hS fun _ _ _ =>
        by decide
    obtain ⟨first, hfirst⟩ := Option.isSome_iff_exists.1 hres
    obtain ⟨-, hmapped⟩ := hok first _ (Prod.ext hfirst rfl)
    obtain ⟨f, -, hentry⟩ := hmapped.pages v hge hv
    exact isSome_of_pageEntry hentry
  · exact ⟨vmmAllocPagesRegion_cr3 .., hkeep, fun v hge hv => absurd hv (not_lt.2 hge)⟩

lemma growsActive_heapGet (h : Memory K s P) (size : ℕ) (c : HeapChoice) :
    GrowsActive s (Gummy.heapGet size c s).2 := by
  have hgrow := h.growsActive_heapGrow c.pages
  refine ⟨?_, fun v hv hv' => ?_, fun v hge hlt => ?_⟩
  all_goals rw [heapGet_mach]
  · exact hgrow.cr3
  · exact hgrow.bytes v hv hv'
  · exact hgrow.grown v hge (heapGet_stop size c s ▸ hlt)

/-- What happens in the active space happens in all, when there are no new tables. -/
lemma keepsUpper_active (h : Memory K s P) (hup : Upper b P s) (hs : SameOwners P s s')
    (hS : ∀ i ∈ S, 768 ≤ i → i < 1023 ∧ isPresent (s.mach.pde i) = true)
    (he : Edits (s.owners P K) S s.mach s'.mach) (hgrow : GrowsActive s s') :
    KeepsUpper {q | q ∈ P} s s' := by
  have htables := h.sameTables hS he
  obtain ⟨p, hp, hcr3⟩ := h.exists_active
  have hall := fun q (hq : q ∈ P) v hge hlt =>
    hup.keepsByte hq hp htables hge hlt (hcr3 ▸ hgrow.bytes v hge hlt)
  refine ⟨hs.stop, hs.cr3, htables, fun q hq v hv hv' => (hall q hq v hv hv').1,
    fun q hq v hv hge hlt hv' => ?_⟩
  rw [(hall q hq v hv hv').2, hcr3, ← hgrow.cr3, space_cr3]
  exact hgrow.grown v hge hlt

/-- The slots with tables that a range of pages of the kernel uses. -/
lemma edits_tabled (h : Memory K s P) (n : ℕ) {flags start stop : ℕ}
    (hflags : flags = vmmFlagsPresent ||| vmmFlagsRw) (hstart : start ≤ 0xFFC00000)
    (hstop : stop ≤ 0xFFC00000) (ht : s.Tabled start stop) :
    Edits (s.owners P K) {i | i < 1023 ∧ isPresent (s.mach.pde i) = true} s.mach
      (vmmAllocPagesRegion n flags start stop s.mach).2 := by
  subst hflags
  refine h.spaces.edits_region (by decide) hstart hstop fun v hv hge =>
    ⟨⟨?_, ?_⟩, fun _ => by decide⟩
  · rw [getPdeIndex_eq]
    omega
  · exact ht v hge hv (hv.trans_le hstop)

lemma keepsUpper_heapGet (h : Memory K s P) (hup : Upper b P s) (size : ℕ) (c : HeapChoice)
    (ht : s.Tabled s.heap.stop (s.heap.stop + c.pages * pageSize)) :
    KeepsUpper {q | q ∈ P} s (Gummy.heapGet size c s).2 := by
  obtain ⟨-, hs⟩ := h.edits_heapGet size c
  refine h.keepsUpper_active hup hs (fun i hi _ => hi) ?_ (h.growsActive_heapGet size c)
  rw [heapGet_mach]
  unfold Gummy.heapGrow
  dsimp only
  split_ifs with hstop hres
  · exact .refl
  all_goals
    have hlt := not_le.1 (not_or.1 hstop).2
    exact h.edits_tabled _ rfl (by omega) hlt.le ht

lemma heapGet_stop_le (size : ℕ) (c : HeapChoice) (s : Kernel) :
    (Gummy.heapGet size c s).2.heap.stop ≤ s.heap.stop + c.pages * pageSize := by
  rw [heapGet_stop]
  unfold Gummy.heapGrow
  dsimp only
  split_ifs
  · exact Nat.le_add_right ..
  · exact le_rfl
  · exact Nat.le_add_right ..

end Memory

/-! ### Threads -/

/-- The ways through `sched_create_thread`. -/
lemma schedCreateThread_cases (p loc : ℕ) (c : HeapChoice) (s : Kernel) :
    schedCreateThread loc p c s = (none, s) ∨ ∃ slot r s₁,
      heapGet kernelStackSize c (clearThread ⟨p, slot⟩ s) = (r, s₁) ∧
      (schedCreateThread loc p c s = (none, s₁) ∨ ∃ stack0 ok m,
        allocUserStack p (userStackEnd slot - userStackSize) (userStackEnd slot) s₁ =
          (ok, { s₁ with mach := m }) ∧
        (schedCreateThread loc p c s = (none, heapPut stack0 { s₁ with mach := m }) ∨
          schedCreateThread loc p c s = (some ⟨p, slot⟩,
            (Kernel.setThread { s₁ with mach := m } ⟨p, slot⟩
              (fillThread p loc stack0 (userStackEnd slot))).setProc p
                fun p => { p with numThreads := (p.numThreads + 1) % 2 ^ 8 }))) := by
  unfold schedCreateThread
  split_ifs with hloc hnum
  · exact .inl rfl
  · exact .inl rfl
  cases freeSlot p s with
  | none => exact .inl rfl
  | some slot =>
    rcases hget : heapGet kernelStackSize c (clearThread ⟨p, slot⟩ s) with ⟨_ | stack0, s₁⟩
    · refine .inr ⟨slot, none, s₁, hget, .inl ?_⟩
      simp only [hget]
    · obtain ⟨ok, m, halloc, -⟩ := allocUserStack_spec p (userStackEnd slot - userStackSize)
        (userStackEnd slot) s₁
      refine .inr ⟨slot, some stack0, s₁, hget, .inr ⟨stack0, ok, m, halloc, ?_⟩⟩
      cases ok with
      | false => exact .inl (by simp only [hget, halloc])
      | true => exact .inr (by simp only [hget, halloc])

namespace Memory

variable {b : ℕ}

lemma keepsUpper_allocUserStack (h : Memory K s P) (hp : p ∈ P) (slot : Fin threadPerProcess) :
    KeepsUpper {q | q ∈ P} s
      (allocUserStack p (userStackEnd slot - userStackSize) (userStackEnd slot) s).2 := by
  obtain ⟨-, hge, hle, -⟩ := userStack_slot slot
  obtain ⟨hedits, hs⟩ := h.edits_allocUserStack hp hge hle (Nat.sub_le ..)
  obtain ⟨ok, m, heq, -⟩ := allocUserStack_spec p (userStackEnd slot - userStackSize)
    (userStackEnd slot) s
  have hstop : (allocUserStack p (userStackEnd slot - userStackSize) (userStackEnd slot)
      s).2.heap.stop = s.heap.stop := by rw [heq]
  exact h.keepsUpper_lower hs hstop (fun _ hi => hi.2) (mem_owners hp) hedits

lemma keepsUpper_clearThread (P : List ℕ) (t : ThreadRef) (s : Kernel) :
    KeepsUpper {q | q ∈ P} s (clearThread t s) := .of_phys (fun _ _ => rfl) rfl rfl

lemma memory_clearThread (h : Memory K s P) (t : ThreadRef) : Memory K (clearThread t s) P :=
  h.same (sameOwners_clearThread _) rfl h.spaces.active

/-- `sched_create_thread`, behind its `heap_alloc`. -/
lemma keepsUpper_createThread (h : Memory K s P) (hp : p ∈ P) (loc : ℕ) (c : HeapChoice) :
    (Gummy.schedCreateThread loc p c s).2 = s ∨ ∃ slot, KeepsUpper {q | q ∈ P}
      (Gummy.heapGet kernelStackSize c (clearThread ⟨p, slot⟩ s)).2
      (Gummy.schedCreateThread loc p c s).2 := by
  obtain heq | ⟨slot, r, s₁, hget, hways⟩ := schedCreateThread_cases p loc c s
  · exact .inl (by rw [heq])
  refine .inr ⟨slot, ?_⟩
  have hmem := ((h.memory_clearThread ⟨p, slot⟩).heapGet kernelStackSize c).1
  rw [hget] at hmem ⊢
  obtain heq | ⟨stack0, ok, m, halloc, hways⟩ := hways
  · rw [heq]
    exact .refl _ _
  have hstack := hmem.keepsUpper_allocUserStack hp slot
  rw [halloc] at hstack
  obtain heq | heq := hways
  all_goals rw [heq]
  · exact hstack.heapPut stack0
  · -- the rest is about the slot and the count of threads
    refine hstack.trans (.of_phys (fun q _ => ?_) rfl rfl)
    by_cases hq : q = p
    · rw [hq, Kernel.setProc_self]
      rfl
    · rw [Kernel.setProc_of_ne _ _ hq]
      rfl

/-- `sched_create_thread`, when the heap finds tables. -/
lemma keepsUpper_schedCreateThread (h : Memory K s P) (hup : Upper b P s) (hp : p ∈ P) (loc : ℕ)
    (c : HeapChoice) (ht : s.Tabled s.heap.stop (s.heap.stop + c.pages * pageSize)) :
    KeepsUpper {q | q ∈ P} s (Gummy.schedCreateThread loc p c s).2 := by
  obtain heq | ⟨slot, hkeep⟩ := h.keepsUpper_createThread hp loc c
  · rw [heq]
    exact .refl _ _
  · have hclear := keepsUpper_clearThread P ⟨p, slot⟩ s
    exact (hclear.trans ((h.memory_clearThread ⟨p, slot⟩).keepsUpper_heapGet (hup.keeps hclear)
      kernelStackSize c ht)).trans hkeep

/-- The processes that were there keep their tables. -/
lemma Spawned.keepsUpper (hsp : Spawned K P s s' p) (hstop : s'.heap.stop = s.heap.stop) :
    KeepsUpper {q | q ∈ P} s s' := by
  refine ⟨hstop.ge, fun q hq => (hsp.keeps q hq).1, fun q hq k hk hk' =>
    Machine.tableOf_congr ?_, fun q hq v hv hv' => ?_,
    fun q _ v _ hge hlt => absurd hlt (by omega)⟩
  · refine hsp.cloned.elsewhere.pde _ (mem_owners hq) k (hk'.trans (by norm_num)) (Or.inr ?_)
    rintro rfl
    omega
  · obtain ⟨hslot, -⟩ := upper_slot hv hv'
    refine hsp.cloned.elsewhere.keepsByte (mem_owners hq) hv' (.inr hslot) fun hk => ?_
    rw [Set.mem_singleton_iff] at hk
    omega

/-- The new process has the tables of the active space. -/
lemma Spawned.upper (hsp : Spawned K P s s' p) (hinv : Inv s P L D)
    (hstop : s'.heap.stop = s.heap.stop) (hup : Upper b P s) : Upper b (p :: P) s' := by
  have hkeep := hsp.keepsUpper hstop
  have hcloned := hsp.cloned
  have hcur := hinv.current_mem
  have hcr3 : s.mach.cr3 = (s.proc s.currentThread.process).cr3 := hinv.cr3
  have hnew : ∀ k, 768 ≤ k → k < 1023 → s'.mach.tableOf (s'.proc p).cr3 k =
      s.mach.tableOf (s.proc s.currentThread.process).cr3 k := by
    intro k hk hk'
    have hpde := hcloned.pde k (hk'.trans (by norm_num)) (by omega)
    have hhigh := hcloned.directory.high k hk hk'
    have hentry : s'.mach.entry (s'.proc p).cr3 k =
        s.mach.entry (s.proc s.currentThread.process).cr3 k := by
      rw [hhigh, hpde, ← hcr3]
      rfl
    rw [tableOf, tableOf, hentry]
  have hall : ∀ q ∈ p :: P, ∀ k, 768 ≤ k → k < 1023 → s'.mach.tableOf (s'.proc q).cr3 k =
      s.mach.tableOf (s.proc s.currentThread.process).cr3 k := by
    intro q hq k hk hk'
    obtain rfl | hq := List.mem_cons.1 hq
    · exact hnew k hk hk'
    · rw [hkeep.cr3 q hq, hkeep.tables q hq k hk hk']
      exact hup.tables q hq _ hcur k hk hk'
  refine ⟨fun q hq q' hq' k hk hk' => by rw [hall q hq k hk hk', hall q' hq' k hk hk'],
    fun q hq v hv hb hlt hv' => ?_⟩
  obtain ⟨hslot, hslot'⟩ := upper_slot hv hv'
  -- what the current process finds, all find
  have hcurrent := hall _ (List.mem_cons_of_mem p hcur) _ (by omega) hslot'
  rw [Machine.translate_of_tableOf ((hall q hq _ (by omega) hslot').trans hcurrent.symm)]
  exact (hup.keeps hkeep).heap _ hcur v hv hb hlt hv'

lemma setUpProcess_stop (p : ℕ) (s : Kernel) :
    (Gummy.setUpProcess p s).2.heap.stop = s.heap.stop := by
  rw [Gummy.setUpProcess]
  dsimp only
  rcases vmmClone (clearProcess p s).mach with ⟨cr3, m⟩
  dsimp only
  split_ifs
  · rfl
  · exact congrArg KernelHeap.stop (linkProcess_rest p _).2.2

/-- `sched_create_process`, once the memory at `p` has been allocated. -/
lemma upper_setUpProcess (h : Memory K s P) (hinv : Inv s P L ((p, sizeofProcess) :: D)) :
    KeepsUpper {q | q ∈ P} s (Gummy.setUpProcess p s).2 ∧
      ((Gummy.setUpProcess p s).1 ≠ none → Upper b P s →
        Upper b (p :: P) (Gummy.setUpProcess p s).2) := by
  have hne : ∀ q ∈ P, q ≠ p := hinv.heap.held_ne_proc _ List.mem_cons_self
  obtain ⟨s₁, heq, -⟩ | ⟨s₁, heq, hspawned⟩ := h.setUpProcess hinv
  · rw [heq]
    refine ⟨?_, fun hsome => absurd rfl hsome⟩
    obtain ⟨pmm, hclone, -, -⟩ | ⟨d, m', hclone, hcloned⟩ :=
      h.spaces.vmmClone_spec (h.slot_active hinv)
    all_goals
      rw [Gummy.setUpProcess] at heq
      dsimp only at heq
      rw [show (clearProcess p s).mach = s.mach from rfl, hclone] at heq
      dsimp only at heq
    · rw [if_pos rfl] at heq
      obtain ⟨-, rfl⟩ := Prod.mk.inj heq
      refine KeepsUpper.heapPut ?_ p
      refine .of_phys (fun q hq => ?_) rfl rfl
      rw [Kernel.setProc_of_ne _ _ (hne q hq)]
      exact congrArg Process.cr3 (Function.update_of_ne (hne q hq) _ _)
    · rw [if_neg hcloned.ne_zero] at heq
      cases (Prod.mk.inj heq).1
  · have hstop := setUpProcess_stop p s
    rw [heq] at hstop ⊢
    exact ⟨hspawned.keepsUpper hstop, fun _ hup => hspawned.upper hinv hstop hup⟩

/-- `sched_create_process` -/
lemma upper_schedCreateProcess (h : Memory K s P) (hinv : Inv s P L D) (hup : Upper b P s)
    (c : HeapChoice) (ht : s.Tabled s.heap.stop (s.heap.stop + c.pages * pageSize)) :
    KeepsUpper {q | q ∈ P} s (Gummy.schedCreateProcess c s).2 ∧
      s.heap.stop ≤ (Gummy.schedCreateProcess c s).2.heap.stop ∧
      (Gummy.schedCreateProcess c s).2.heap.stop ≤ s.heap.stop + c.pages * pageSize ∧
      ∀ p s', Gummy.schedCreateProcess c s = (some p, s') → Upper b (p :: P) s' := by
  have hmem := (h.heapGet sizeofProcess c).1
  have hget := h.keepsUpper_heapGet hup sizeofProcess c ht
  have hge := (h.edits_heapGet sizeofProcess c).2.stop
  have hstop := heapGet_stop_le sizeofProcess c s
  unfold Gummy.schedCreateProcess
  obtain ⟨s₁, heq, -⟩ | ⟨s₁, heq, hinv₁⟩ := hinv.heapGet sizeofProcess c
  all_goals
    rw [heq] at hmem hget hge hstop ⊢
    dsimp only at hmem hget hge hstop ⊢
  · refine ⟨hget, hge, hstop, fun p s' hnone => ?_⟩
    cases (Prod.mk.inj hnone).1
  · obtain ⟨hkeep, hupper⟩ := hmem.upper_setUpProcess hinv₁
    have hsame := setUpProcess_stop c.addr s₁
    refine ⟨hget.trans hkeep, hge.trans_eq hsame.symm, hsame.trans_le hstop, ?_⟩
    intro p s' hsome
    obtain ⟨s₂, heq', -⟩ | ⟨s₂, heq', -⟩ := hmem.setUpProcess hinv₁
    · cases (Prod.mk.inj (heq'.symm.trans hsome)).1
    · obtain ⟨hp, rfl⟩ := Prod.mk.inj (heq'.symm.trans hsome)
      obtain rfl := Option.some.inj hp
      have hnew := hupper (by rw [heq']; simp) (hup.keeps hget)
      rwa [heq'] at hnew

lemma keepsUpper_allocIn (h : Memory K s P) (hp : p ∈ P) (n start : ℕ) {stop : ℕ}
    (hge : 0x400000 ≤ start) (hstart : start ≤ 0xC0000000) (hle : stop ≤ 0xC0000000) :
    KeepsUpper {q | q ∈ P} s { s with mach := (vmmAllocPagesRegionIn (s.proc p).cr3 n
        (vmmFlagsPresent ||| vmmFlagsRw ||| vmmFlagsUser) start stop s.mach).2 } := by
  have hcr3 : (s.proc p).cr3 ∈ s.owners P K := mem_owners hp
  refine h.keepsUpper_lower (.of_eq rfl rfl rfl) rfl (fun _ (hi : _ ∈ userSlots) => hi.2) hcr3 ?_
  rw [vmmAllocPagesRegionIn_eq]
  refine ⟨_, (h.spaces.space hcr3).edits_region (by decide) (by omega) (by omega)
    fun v hv hge' => ?_, rfl⟩
  obtain ⟨hslot, hlow⟩ := getPdeIndex_user (hge.trans hge') (hv.trans_le hle)
  exact ⟨hslot, fun hupper => absurd hlow (not_lt.2 hupper)⟩

end Memory

/-- A process `p` has been made, with `n` pages for its image. -/
structure Prepared (K : Set ℕ) (b : ℕ) (P : List ℕ) (D : List (ℕ × ℕ)) (s s' : Kernel) (p n : ℕ) :
    Prop where
  not_mem : p ∉ P
  inv : ∃ L, Inv s' (p :: P) L D
  memory : Memory K s' (p :: P)
  upper : Upper b (p :: P) s'
  keeps : KeepsUpper {q | q ∈ P} s s'
  others : KeepsUser {q | q ∈ P} s s'
  pages : ∀ v, imageBase ≤ v → v < imageBase + n * pageSize →
    ((s'.mach.space (s'.proc p).cr3).translate v).isSome

namespace Prepared

variable {b n : ℕ}

/-- Whatever keeps the upper halves, that of `p` too, and leaves the user pages of the others. -/
lemma next (h : Prepared K b P D s s' p 0) (hinv : Inv s'' (p :: P) L D)
    (hmem : Memory K s'' (p :: P)) (hkeep : KeepsUpper {q | q ∈ p :: P} s' s'')
    (hothers : KeepsUser {q | q ∈ p :: P ∧ q ≠ p} s' s'') : Prepared K b P D s s'' p 0 where
  not_mem := h.not_mem
  inv := ⟨L, hinv⟩
  memory := hmem
  upper := h.upper.keeps hkeep
  keeps := h.keeps.trans (hkeep.mono fun _ hq => List.mem_cons_of_mem p hq)
  others := h.others.trans (hothers.mono fun _ hq =>
    ⟨List.mem_cons_of_mem p hq, fun heq => h.not_mem (heq ▸ hq)⟩)
  pages v hge hlt := absurd hlt (by omega)

/-- The pages of the image. -/
lemma allocIn (h : Prepared K b P D s s' p 0) {k : ℕ} {res : Option ℕ} {m : Machine}
    (hend : imageBase + k * pageSize ≤ 0xC0000000)
    (halloc : vmmAllocPagesRegionIn (s'.proc p).cr3 k
      (vmmFlagsPresent ||| vmmFlagsRw ||| vmmFlagsUser) imageBase (imageBase + k * pageSize)
      s'.mach = (res, m))
    (ht : s'.Tabled s'.heap.stop (s'.heap.stop + n * pageSize)) :
    Prepared K b P D s { s' with mach := m } p 0 ∧
      Kernel.Tabled { s' with mach := m } s'.heap.stop (s'.heap.stop + n * pageSize) := by
  have hp : p ∈ p :: P := List.mem_cons_self
  have hbase : imageBase ≤ 0xC0000000 := by decide
  have hkeep := h.memory.keepsUpper_allocIn hp k imageBase le_rfl hbase hend
  obtain ⟨hmem, hothers⟩ := h.memory.allocIn hp k imageBase le_rfl hbase hend
  have hcr3 := vmmAllocPagesRegionIn_cr3 s'.mach (s'.proc p).cr3 k
    (vmmFlagsPresent ||| vmmFlagsRw ||| vmmFlagsUser) imageBase (imageBase + k * pageSize)
  rw [halloc] at hkeep hmem hothers hcr3
  obtain ⟨L, hinv⟩ := h.inv
  have hinv' : Inv { s' with mach := m } (p :: P) L D := hinv.congr (SameLinks.withMach _ s' hcr3)
  exact ⟨h.next hinv' hmem hkeep hothers,
    ht.keeps (le_trans (by decide) h.memory.base) hkeep hinv.current_mem hinv.cr3 hinv'.cr3⟩

lemma schedCreateThread (h : Prepared K b P D s s' p 0) (loc : ℕ) (c : HeapChoice)
    (ht : s'.Tabled s'.heap.stop (s'.heap.stop + c.pages * pageSize)) :
    Prepared K b P D s (Gummy.schedCreateThread loc p c s').2 p 0 := by
  have hp : p ∈ p :: P := List.mem_cons_self
  have hkeep := h.memory.keepsUpper_schedCreateThread h.upper hp loc c ht
  obtain ⟨hmem, hothers⟩ := h.memory.schedCreateThread hp loc c
  obtain ⟨L, hinv⟩ := h.inv
  obtain ⟨res, s₁, heq, hinv₁, -⟩ := hinv.schedCreateThread hp loc c
  rw [heq] at hkeep hmem hothers ⊢
  exact h.next hinv₁ hmem hkeep hothers

end Prepared

namespace Memory

variable {b : ℕ}

/-- `sched_create_process` has returned a process. -/
lemma created (h : Memory K s P) (hinv : Inv s P L D) (hup : Upper b P s) {c : HeapChoice} {n : ℕ}
    (ht : s.Tabled s.heap.stop (s.heap.stop + (c.pages + n) * pageSize))
    (hcreate : Gummy.schedCreateProcess c s = (some p, s')) :
    Prepared K b P D s s' p 0 ∧ s'.Tabled s'.heap.stop (s'.heap.stop + n * pageSize) := by
  have hcur := hinv.current_mem
  obtain ⟨hkeep, hge, hstop, hupper⟩ := h.upper_schedCreateProcess hinv hup c
    (ht.mono le_rfl (by gcongr; omega))
  obtain ⟨s₂, heq, -⟩ | ⟨s₁, s₂, heq, hothers, hspawned⟩ := h.schedCreateProcess hinv c
  · cases (Prod.mk.inj (heq.symm.trans hcreate)).1
  obtain ⟨res, s₃, heq', ⟨rfl, -⟩ | ⟨q, rfl, hinv', hnew⟩⟩ := hinv.schedCreateProcess c
  · cases (Prod.mk.inj (heq'.symm.trans hcreate)).1
  rw [heq] at hcreate heq' hkeep hge hstop hupper
  obtain ⟨hp, rfl⟩ := Prod.mk.inj hcreate
  obtain ⟨hq, rfl⟩ := Prod.mk.inj heq'
  obtain rfl := Option.some.inj hp
  obtain rfl := Option.some.inj hq
  refine ⟨⟨hnew.not_mem, ⟨_, hinv'⟩, hspawned.memory, hupper _ _ rfl, hkeep,
    hothers.trans hspawned.keeps, fun v hge hlt => absurd hlt (by omega)⟩, ?_⟩
  have hcr3 := hinv'.cr3
  rw [hnew.currentThread] at hcr3
  dsimp only at hge hstop
  refine (ht.keeps (le_trans (by decide) h.base) hkeep hcur hinv.cr3 hcr3).mono hge ?_
  rw [add_mul]
  omega

end Memory

/-- The mappings that an entry makes in the upper half find tables, unless there is only one
space.  For a new process there soon are two. -/
def Event.FindsTables (s : Kernel) : Event → Prop
  | .nprocess _ _ cData cProc cStack _ => s.Tabled s.heap.stop
      (s.heap.stop + (cData.pages + cProc.pages + cStack.pages) * pageSize)
  | .nthread _ c => s.Grows c.pages
  | .alloc _ c => s.Grows c.pages
  | .mapKernel _ regionStart regionEnd => s.FindsTables regionStart regionEnd
  | _ => True

lemma Upper.returning {b : ℕ} {r : ℕ × Kernel} (h : Upper b r.2.processes r.2) :
    Upper b (Gummy.returning r).finish.processes (Gummy.returning r).finish :=
  h.keeps (.of_phys (fun _ _ => rfl) rfl rfl)

end Gummy
