import Gummy.Kernel.KernelHalf
import Gummy.Kernel.UserMemory

/-!
The image of a new process.

`sys_nprocess_impl` copies the image twice: to a block of the heap through the tables of its caller,
and from the block into the new space through the tables of that.  In between it makes a process,
a thread and their pages.  The block is the same in both spaces, as they share the upper half.
-/

namespace Gummy

open CWord Machine

open Transition (Reachable)

/-! ### `memcpy` -/

section Copy

variable {m m' : Machine} {D : Owners} {S : Set ℕ} {d v : ℕ}

end Copy

variable {K : Set ℕ} {s s' : Kernel} {P : List ℕ} {S : Set ℕ} {b p v : ℕ}
  {L : QueueRef → List ThreadRef} {D : List (ℕ × ℕ)}

/-! ### Bytes written in the active space -/

lemma Memory.stores (h : Memory K s P) {m : Machine}
    (hstores : Stores (s.owners P K) S s.mach m) : Memory K { s with mach := m } P := by
  refine h.congr (.of_eq rfl rfl rfl) (hstores.spaces h.spaces) fun q hq => ?_
  have hentry := hstores.tables.pde _ (mem_owners hq) 0 (by norm_num)
  exact (congrArg (fun e => ¬ isPresent e = true) hentry).mpr (h.slot q hq)

lemma Upper.stores (h : Upper b P s) {m : Machine}
    (hstores : Stores (s.owners P K) S s.mach m) : Upper b P { s with mach := m } := by
  have htables : ∀ q ∈ P, ∀ k, 768 ≤ k → k < 1023 →
      m.tableOf (s.proc q).cr3 k = s.mach.tableOf (s.proc q).cr3 k := fun q hq k _ hk =>
    Machine.tableOf_congr (hstores.tables.pde _ (mem_owners hq) k (hk.trans (by norm_num)))
  refine ⟨fun q hq q' hq' k hk hk' => ?_, fun q hq v hv hb hlt hv' => ?_⟩
  · rw [htables q hq k hk hk', htables q' hq' k hk hk']
    exact h.tables q hq q' hq' k hk hk'
  · rw [hstores.tables.translate_eq (mem_owners hq) hv']
    exact h.heap q hq v hv hb hlt hv'

lemma Kernel.Tabled.stores {start stop : ℕ} (h : s.Tabled start stop) {D : Owners} {m : Machine}
    (hstores : Stores D S s.mach m) (hactive : s.mach.cr3 ∈ D) :
    Kernel.Tabled { s with mach := m } start stop := by
  intro v hv hv' hlt
  have hpde : m.pde (getPdeIndex v) = s.mach.pde (getPdeIndex v) := by
    rw [pde, hstores.cr3]
    exact hstores.tables.pde _ hactive _ ((getPdeIndex_lt_window hlt).trans (by norm_num))
  have hpresent := h v hv hv' hlt
  rwa [← hpde] at hpresent

/-! ### The pages of the image -/

/-- What the heap shows to the process that was running, it shows to the new one. -/
lemma Prepared.loadByte {n q : ℕ} (h : Prepared K b P D s s' p n) (hq : q ∈ P)
    (hcr3 : s.mach.cr3 = (s.proc q).cr3) (hv : heapBase ≤ v) (hv' : v < 0xFFC00000)
    (hmapped : (s.mach.translate v).isSome) :
    (s'.mach.space (s'.proc p).cr3).loadByte v = s.mach.loadByte v := by
  obtain ⟨pa, hpa⟩ := Option.isSome_iff_exists.1 hmapped
  have hkeep := h.keeps.bytes q hq v hv hv'
  rw [← hcr3] at hkeep
  obtain ⟨htranslate, hphys⟩ := hkeep pa (by rwa [space_cr3])
  have hnew := h.upper.translate_eq List.mem_cons_self (List.mem_cons_of_mem p hq)
    (le_trans (by decide) hv) hv'
  rw [h.keeps.cr3 q hq, ← hcr3, htranslate] at hnew
  rw [Machine.loadByte, Machine.loadByte, hnew, hpa]
  exact hphys

/-- The thread of the new process becomes ready, and the block of its bytes is freed. -/
lemma Prepared.schedReady {n data size : ℕ} (h : Prepared K b P ((data, size) :: D) s s' p n)
    {t : ThreadRef} (htp : t.process = p) (howner : (s'.thread t).process = some p)
    (hused : (s'.thread t).state ≠ .free) {m : Machine} (hcr3 : m.cr3 = s'.mach.cr3) :
    (Gummy.schedReady t (Gummy.heapPut data { s' with mach := m })).processes = p :: P ∧
      t ∈ (Gummy.schedReady t (Gummy.heapPut data { s' with mach := m })).queues.toList .ready ∧
      ((Gummy.schedReady t (Gummy.heapPut data { s' with mach := m })).thread t).sp0 =
        (s'.thread t).sp0 := by
  obtain ⟨L, hinv⟩ := h.inv
  have hfreed : Inv (Gummy.heapPut data { s' with mach := m }) (p :: P) L D :=
    (hinv.congr (SameLinks.withMach _ s' hcr3)).release rfl
  have hmoved := hfreed.moveTo (t := t) (q := .ready) (htp ▸ List.mem_cons_self)
    (howner.trans (congrArg some htp.symm)) hused trivial (by simp)
    (show ThreadState.ready ≠ .free by decide)
  refine ⟨hmoved.processes_eq, ?_, ?_⟩
  · refine (hmoved.queues.toList_eq (k := .ready) trivial).symm ▸ ?_
    rw [Denotes.pushList_self]
    exact List.mem_append_right _ List.mem_cons_self
  · rw [Gummy.schedReady, Gummy.moveTo, Kernel.setThread_self]
    rfl

/-- A block of the heap is mapped. -/
lemma Upper.block {a n : ℕ} (h : Upper heapBase P s) (hinv : Inv s P L ((a, n) :: D)) :
    heapBase ≤ a ∧ a + n ≤ 0xFFC00000 ∧ ∀ i < n, (s.mach.translate (a + i)).isSome := by
  obtain ⟨-, hbase, hheld⟩ := hinv.heap.range _ (hinv.heap.held _ List.mem_cons_self)
  dsimp only at hbase hheld
  have hend : a + n ≤ 0xFFC00000 := hheld.trans hinv.heap.stop_le
  refine ⟨hbase, hend, fun i hi => ?_⟩
  have hmapped := h.heap _ hinv.current_mem (a + i) (by omega) (by omega) (by omega) (by omega)
  rwa [← hinv.cr3, space_cr3] at hmapped

/-- The pages of the heap that `heap_init` asks for are there. -/
def InitHeap (K : Set ℕ) (s : Kernel) : Prop :=
  InitMemory K s ∧ ∀ v, heapBase ≤ v → v < s.heap.stop → (s.mach.translate v).isSome

lemma InitHeap.upper (h : InitHeap K s) :
    ∃ v, Abs s v [] ∧ Memory K s v.processes ∧ Upper heapBase s.processes s := by
  obtain ⟨v, habs, hmem⟩ := h.1.memory
  obtain ⟨⟨s₀, hboot, -, rfl⟩, hheap⟩ := h
  have hproc : (schedInit 100 s₀).processes = [idleProcess] :=
    (Abs.init hboot 100).inv.processes_eq
  refine ⟨v, habs, hmem, fun p hp q hq k _ _ => ?_, fun p hp x hx _ hlt _ => ?_⟩
  · rw [hproc] at hp hq
    rw [List.mem_singleton.1 hp, List.mem_singleton.1 hq]
  · obtain ⟨q, hq, hcr3⟩ := hmem.exists_active
    rw [← habs.inv.processes_eq] at hq
    have heq : p = q := by
      rw [hproc] at hp hq
      rw [List.mem_singleton.1 hp, List.mem_singleton.1 hq]
    rw [heq, hcr3, space_cr3]
    exact hheap x hx hlt

lemma Kernel.Tabled.none (s : Kernel) (start : ℕ) {c c' c'' : HeapChoice} (hc : c.pages = 0)
    (hc' : c'.pages = 0) (hc'' : c''.pages = 0) :
    s.Tabled start (start + (c.pages + c'.pages + c''.pages) * pageSize) :=
  fun v hge hlt => absurd hlt (not_lt.2 (by simpa [hc, hc', hc''] using hge))

end Gummy
