import Mathlib.Data.List.Pairwise
import Gummy.Kernel.Syscall

/-!
What holds of the kernel's data structures in every reachable state.

`Inv s P L D` says that the process list is `P`, that the queues hold the lists `L`,
that the running handler holds the heap blocks `D`, and that whatever is linked or
owned belongs to a process of `P`.  Each operation has a lemma that gives the new
`P`, `L` and `D`; memory outside the live processes is
never mentioned, so that it may hold anything.
-/

namespace Gummy

open CWord

/-! ### The invariant -/

/-- The queues that exist: the four of the scheduler and one in each mailbox. -/
def LiveQueue (P : List ℕ) : QueueRef → Prop
  | .waiters p => p ∈ P
  | _ => True

/-- The thread has a kernel stack of its own. -/
def OwnsStack (s : Kernel) (P : List ℕ) (t : ThreadRef) : Prop :=
  t.process ∈ P ∧ (s.thread t).process ≠ none ∧ (s.thread t).state ≠ .free ∧
    (s.thread t).stack0 ≠ 0

/-- The blocks of the heap do not overlap.  Among them are the processes of `P`, their
kernel stacks, and the blocks `D` that the running handler holds; no block is two of
these. -/
structure BlockInv (s : Kernel) (P : List ℕ) (D : List (ℕ × ℕ)) : Prop where
  disjoint : s.heap.blocks.Pairwise fun b c => b.1 + b.2 ≤ c.1 ∨ c.1 + c.2 ≤ b.1
  range : ∀ b ∈ s.heap.blocks, 0 < b.2 ∧ heapBase ≤ b.1 ∧ b.1 + b.2 ≤ s.heap.stop
  stop_le : s.heap.stop ≤ 0xFFC00000
  proc : ∀ p ∈ P, p ≠ idleProcess → (p, sizeofProcess) ∈ s.heap.blocks
  stack : ∀ t, OwnsStack s P t → ((s.thread t).stack0, kernelStackSize) ∈ s.heap.blocks
  stack_inj : ∀ t t', OwnsStack s P t → OwnsStack s P t' →
    (s.thread t).stack0 = (s.thread t').stack0 → t = t'
  held : ∀ d ∈ D, d ∈ s.heap.blocks
  held_ne_proc : ∀ d ∈ D, ∀ p ∈ P, p ≠ d.1
  held_ne_stack : ∀ d ∈ D, ∀ t, OwnsStack s P t → (s.thread t).stack0 ≠ d.1
  held_nodup : (D.map Prod.fst).Nodup

structure Inv (s : Kernel) (P : List ℕ) (L : QueueRef → List ThreadRef) (D : List (ℕ × ℕ)) :
    Prop where
  linked : Linked (fun p => (s.proc p).next) (fun p => (s.proc p).prev) P
  first : s.firstProcess = P.head?
  idle_mem : idleProcess ∈ P
  queues : Denotes s.queues (fun t => t.process ∈ P) (LiveQueue P) L
  queued : ∀ q, ∀ t ∈ L q,
    (s.thread t).process = some t.process ∧ (s.thread t).state ≠ .free
  waiters : ∀ p, ∀ t ∈ L (.waiters p), t.process = p
  owner : ∀ t, t.process ∈ P → ∀ p, (s.thread t).process = some p → p = t.process
  current_mem : s.currentThread.process ∈ P
  current_owner : (s.thread s.currentThread).process = some s.currentThread.process
  current_used : (s.thread s.currentThread).state ≠ .free
  stacked : ∀ t, t.process ∈ P → t ≠ idleThread → (s.thread t).process ≠ none →
    (s.thread t).stack0 ≠ 0
  esp0 : s.currentThread ≠ idleThread →
    s.esp0 = (s.thread s.currentThread).stack0 + kernelStackSize
  currentProcess : s.currentProcess = s.currentThread.process
  cr3 : s.mach.cr3 = (s.proc s.currentThread.process).cr3
  heap : BlockInv s P D

/-! ### Operations that do not touch what it speaks of -/

/-- The fields of a process that the invariant speaks of. -/
def Process.links (p : Process) : Option ℕ × Option ℕ × ℕ := (p.next, p.prev, p.cr3)

/-- The fields of a thread that the invariant speaks of. -/
def Thread.owned (t : Thread) : Option ℕ × ℕ × Bool := (t.process, t.stack0, t.state = .free)

/-- The queue fields of live threads and queues are the same. -/
structure SameQueues (P : List ℕ) (Q Q' : Queues QueueRef ThreadRef) : Prop where
  node : ∀ t, t.process ∈ P → Q'.next t = Q.next t ∧ Q'.prev t = Q.prev t ∧ Q'.q t = Q.q t
  queue : ∀ q, LiveQueue P q →
    Q'.headNext q = Q.headNext q ∧ Q'.headPrev q = Q.headPrev q ∧ Q'.size q = Q.size q

lemma SameQueues.refl (P : List ℕ) (Q : Queues QueueRef ThreadRef) : SameQueues P Q Q :=
  ⟨fun _ _ => ⟨rfl, rfl, rfl⟩, fun _ _ => ⟨rfl, rfl, rfl⟩⟩

/-- Two states that the invariant cannot tell apart, when `P` is the process list. -/
structure SameLinks (P : List ℕ) (s s' : Kernel) : Prop where
  proc : ∀ p ∈ P, (s'.proc p).links = (s.proc p).links
  thread : ∀ t, t.process ∈ P → (s'.thread t).owned = (s.thread t).owned
  queues : SameQueues P s.queues s'.queues
  firstProcess : s'.firstProcess = s.firstProcess
  currentThread : s'.currentThread = s.currentThread
  currentProcess : s'.currentProcess = s.currentProcess
  cr3 : s'.mach.cr3 = s.mach.cr3
  blocks : s'.heap.blocks = s.heap.blocks
  stop : s'.heap.stop = s.heap.stop
  esp0 : s'.esp0 = s.esp0

namespace SameLinks

lemma trans {P : List ℕ} {s s' s'' : Kernel} (h : SameLinks P s s') (h' : SameLinks P s' s'') :
    SameLinks P s s'' where
  proc p hp := (h'.proc p hp).trans (h.proc p hp)
  thread t ht := (h'.thread t ht).trans (h.thread t ht)
  queues :=
    ⟨fun t ht => ⟨((h'.queues.node t ht).1).trans (h.queues.node t ht).1,
      ((h'.queues.node t ht).2.1).trans (h.queues.node t ht).2.1,
      ((h'.queues.node t ht).2.2).trans (h.queues.node t ht).2.2⟩,
    fun q hq => ⟨((h'.queues.queue q hq).1).trans (h.queues.queue q hq).1,
      ((h'.queues.queue q hq).2.1).trans (h.queues.queue q hq).2.1,
      ((h'.queues.queue q hq).2.2).trans (h.queues.queue q hq).2.2⟩⟩
  firstProcess := h'.firstProcess.trans h.firstProcess
  currentThread := h'.currentThread.trans h.currentThread
  currentProcess := h'.currentProcess.trans h.currentProcess
  cr3 := h'.cr3.trans h.cr3
  blocks := h'.blocks.trans h.blocks
  stop := h'.stop.trans h.stop
  esp0 := h'.esp0.trans h.esp0

variable (P : List ℕ)

lemma setProc (s : Kernel) (p : ℕ) {f : Process → Process} (hf : ∀ x, (f x).links = x.links) :
    SameLinks P s (s.setProc p f) := by
  refine ⟨fun q _ => ?_, fun _ _ => rfl, .refl _ _, rfl, rfl, rfl, rfl, rfl, rfl, rfl⟩
  by_cases hq : q = p
  · subst hq
    simp [Kernel.setProc, hf]
  · simp [Kernel.setProc, hq]

lemma setThread (s : Kernel) (t : ThreadRef) {f : Thread → Thread}
    (hf : (f (s.thread t)).owned = (s.thread t).owned) : SameLinks P s (s.setThread t f) := by
  refine ⟨fun _ _ => rfl, fun u _ => ?_, .refl _ _, rfl, rfl, rfl, rfl, rfl, rfl, rfl⟩
  by_cases hu : u = t
  · subst hu
    simpa [Kernel.setThread] using hf
  · simp [Kernel.setThread, hu]

lemma setEax (s : Kernel) (t : ThreadRef) (v : ℕ) : SameLinks P s (s.setEax t v) :=
  ⟨fun _ _ => rfl, fun _ _ => rfl, .refl _ _, rfl, rfl, rfl, rfl, rfl, rfl, rfl⟩

/-- Memory that holds no live process. -/
lemma setProc_outside {P : List ℕ} (s : Kernel) {p : ℕ} (hp : ∀ q ∈ P, q ≠ p)
    (f : Process → Process) : SameLinks P s (s.setProc p f) := by
  refine ⟨fun q hq => ?_, fun _ _ => rfl, .refl _ _, rfl, rfl, rfl, rfl, rfl, rfl, rfl⟩
  rw [Kernel.setProc_of_ne _ _ (hp q hq)]

/-- Only the machine changes, and it keeps its active directory. -/
lemma withMach (s : Kernel) {m : Machine} (hm : m.cr3 = s.mach.cr3) :
    SameLinks P s { s with mach := m } :=
  ⟨fun _ _ => rfl, fun _ _ => rfl, .refl _ _, rfl, rfl, rfl, hm, rfl, rfl, rfl⟩

end SameLinks

section Congr

variable {s s' : Kernel} {P : List ℕ} {L : QueueRef → List ThreadRef}
  {D : List (ℕ × ℕ)}

lemma SameLinks.ownsStack_iff (h : SameLinks P s s') (t : ThreadRef) :
    OwnsStack s' P t ↔ OwnsStack s P t := by
  refine and_congr_right fun ht => ?_
  have heq := h.thread t ht
  simp only [Thread.owned, Prod.mk.injEq, decide_eq_decide] at heq
  obtain ⟨h1, h2, h3⟩ := heq
  simp only [h1, h2, ne_eq, h3]

lemma BlockInv.congr (h : BlockInv s P D) (hs : SameLinks P s s') : BlockInv s' P D := by
  have hstack : ∀ t, t.process ∈ P → (s'.thread t).stack0 = (s.thread t).stack0 := fun t ht =>
    congrArg (fun x => x.2.1) (hs.thread t ht)
  refine ⟨?_, ?_, ?_, ?_, fun t ht => ?_, fun t t' ht ht' heq => ?_, ?_, h.held_ne_proc,
    fun d hd t ht => ?_, h.held_nodup⟩
  · rw [hs.blocks]
    exact h.disjoint
  · rw [hs.blocks, hs.stop]
    exact h.range
  · rw [hs.stop]
    exact h.stop_le
  · rw [hs.blocks]
    exact h.proc
  · rw [hs.blocks, hstack t ht.1]
    exact h.stack t ((hs.ownsStack_iff t).1 ht)
  · rw [hstack t ht.1, hstack t' ht'.1] at heq
    exact h.stack_inj t t' ((hs.ownsStack_iff t).1 ht) ((hs.ownsStack_iff t').1 ht') heq
  · rw [hs.blocks]
    exact h.held
  · rw [hstack t ht.1]
    exact h.held_ne_stack d hd t ((hs.ownsStack_iff t).1 ht)

/-- Blocks that start at one address are one block. -/
lemma BlockInv.eq_of_fst_eq (h : BlockInv s P D) {b c : ℕ × ℕ} (hb : b ∈ s.heap.blocks)
    (hc : c ∈ s.heap.blocks) (heq : b.1 = c.1) : b = c := by
  by_contra hne
  have hsymm : Std.Symm fun b c : ℕ × ℕ => b.1 + b.2 ≤ c.1 ∨ c.1 + c.2 ≤ b.1 :=
    ⟨fun _ _ => Or.symm⟩
  have hdis := h.disjoint.forall hb hc hne
  have hb2 := (h.range b hb).1
  have hc2 := (h.range c hc).1
  omega

/-- No process is a kernel stack. -/
lemma BlockInv.proc_ne_stack (h : BlockInv s P D) {t : ThreadRef} (ht : OwnsStack s P t) {p : ℕ}
    (hp : p ∈ P) : p ≠ (s.thread t).stack0 := by
  intro heq
  have hstack := h.stack t ht
  by_cases hi : p = idleProcess
  · have hbase := (h.range _ hstack).2.1
    rw [← heq, hi] at hbase
    simp only [heapBase, idleProcess] at hbase
    omega
  · have hsize := congrArg Prod.snd (h.eq_of_fst_eq (h.proc p hp hi) hstack heq)
    simp [sizeofProcess, kernelStackSize, pageSize] at hsize

theorem Inv.congr (h : Inv s P L D) (hs : SameLinks P s s') : Inv s' P L D := by
  have hproc : ∀ t, t.process ∈ P → (s'.thread t).process = (s.thread t).process := fun t ht =>
    congrArg (fun x => x.1) (hs.thread t ht)
  have hfree : ∀ t, t.process ∈ P →
      ((s'.thread t).state = .free ↔ (s.thread t).state = .free) := fun t ht =>
    decide_eq_decide.1 (congrArg (fun x => x.2.2) (hs.thread t ht))
  have hstack : ∀ t, t.process ∈ P → (s'.thread t).stack0 = (s.thread t).stack0 := fun t ht =>
    congrArg (fun x => x.2.1) (hs.thread t ht)
  refine ⟨h.linked.congr (fun p hp => ?_) fun p hp => ?_, ?_, h.idle_mem,
    h.queues.congr hs.queues.node hs.queues.queue, fun q t ht => ?_, h.waiters,
    fun t ht p hp => ?_, ?_, ?_, ?_, fun t ht hi hp => ?_, fun hi => ?_, ?_, ?_, h.heap.congr hs⟩
  · exact congrArg (fun x => x.1) (hs.proc p hp)
  · exact congrArg (fun x => x.2.1) (hs.proc p hp)
  · rw [hs.firstProcess, h.first]
  · have hmem := (h.queues.live q t ht).2
    rw [hproc t hmem, ne_eq, hfree t hmem]
    exact h.queued q t ht
  · exact h.owner t ht p (hproc t ht ▸ hp)
  · rw [hs.currentThread]
    exact h.current_mem
  · rw [hs.currentThread, hproc _ h.current_mem]
    exact h.current_owner
  · rw [hs.currentThread, ne_eq, hfree _ h.current_mem]
    exact h.current_used
  · rw [hstack t ht]
    exact h.stacked t ht hi (hproc t ht ▸ hp)
  · rw [hs.currentThread] at hi ⊢
    rw [hs.esp0, hstack _ h.current_mem]
    exact h.esp0 hi
  · rw [hs.currentThread, hs.currentProcess, h.currentProcess]
  · have hcr3 := congrArg (fun x => x.2.2) (hs.proc _ h.current_mem)
    rw [hs.currentThread, hs.cr3, h.cr3]
    exact hcr3.symm

end Congr

/-! ### Queues -/

section Queues

variable {s : Kernel} {P : List ℕ} {L : QueueRef → List ThreadRef}
  {D : List (ℕ × ℕ)}

/-- New contents for the queues, made of threads that were already queued or may be. -/
lemma Inv.withQueues (h : Inv s P L D) {Q : Queues QueueRef ThreadRef}
    {L' : QueueRef → List ThreadRef}
    (hQ : Denotes Q (fun t => t.process ∈ P) (LiveQueue P) L')
    (hqueued : ∀ q, ∀ t ∈ L' q,
      (s.thread t).process = some t.process ∧ (s.thread t).state ≠ .free)
    (hwaiters : ∀ p, ∀ t ∈ L' (.waiters p), t.process = p) :
    Inv { s with queues := Q } P L' D :=
  { h with
    queues := hQ
    queued := hqueued
    waiters := hwaiters
    heap := { h.heap with } }

/-- Removing a thread from whichever queue holds it. -/
lemma Inv.remove (h : Inv s P L D) {t : ThreadRef} (ht : t.process ∈ P) :
    Inv { s with queues := queueRemove s.queues t } P (fun q => (L q).erase t) D :=
  h.withQueues (h.queues.remove ht)
    (fun q u hu => h.queued q u (List.mem_of_mem_erase hu))
    fun p u hu => h.waiters p u (List.mem_of_mem_erase hu)

/-- Moving a thread to the end of a queue. -/
lemma Inv.push (h : Inv s P L D) {t : ThreadRef} {q : QueueRef}
    (hproc : (s.thread t).process = some t.process) (hfree : (s.thread t).state ≠ .free)
    (hw : ∀ p, q = .waiters p → t.process = p)
    {Q : Queues QueueRef ThreadRef}
    (hQ : Denotes Q (fun t => t.process ∈ P) (LiveQueue P) (Denotes.pushList L q t)) :
    Inv { s with queues := Q } P (Denotes.pushList L q t) D := by
  refine h.withQueues hQ (fun q' u hu => ?_) fun p u hu => ?_
  · obtain ⟨hu, -⟩ | ⟨-, rfl⟩ := (Denotes.mem_pushList h.queues.nodup).1 hu
    · exact h.queued q' u hu
    · exact ⟨hproc, hfree⟩
  · obtain ⟨hu, -⟩ | ⟨hp, rfl⟩ := (Denotes.mem_pushList h.queues.nodup).1 hu
    · exact h.waiters p u hu
    · exact hw p hp.symm

/-- Taking the first thread off a queue. -/
lemma Inv.pop (h : Inv s P L D) {t : ThreadRef} {q : QueueRef} {l : List ThreadRef}
    (hL : L q = t :: l) :
    ∃ Q, queuePop s.queues q = (some t, Q) ∧
      Inv { s with queues := Q } P (Function.update L q l) D := by
  obtain ⟨Q, hpop, hQ⟩ := h.queues.pop_cons hL
  have hsub : ∀ q' u, u ∈ Function.update L q l q' → u ∈ L q' := by
    intro q' u hu
    by_cases hqq : q' = q
    · subst hqq
      rw [hL]
      exact List.mem_cons_of_mem t (by simpa using hu)
    · simpa [hqq] using hu
  exact ⟨Q, hpop, h.withQueues hQ (fun q' u hu => h.queued q' u (hsub q' u hu))
    fun p u hu => h.waiters p u (hsub _ u hu)⟩

/-- `sched_ready`, `sched_zombie` and `sched_sleep`. -/
theorem Inv.moveTo (h : Inv s P L D) {t : ThreadRef} {q : QueueRef} {state : ThreadState}
    (ht : t.process ∈ P) (hproc : (s.thread t).process = some t.process)
    (hfree : (s.thread t).state ≠ .free) (hq : LiveQueue P q)
    (hw : ∀ p, q = .waiters p → t.process = p) (hstate : state ≠ .free) :
    Inv (moveTo q state t s) P (Denotes.pushList L q t) D := by
  have hpush := h.push hproc hfree hw (h.queues.remove_push ht hq)
  refine hpush.congr (SameLinks.setThread P _ t ?_)
  simp [Thread.owned, hstate, hfree]

end Queues

/-! ### The heap -/

/-- The state with another machine and heap. -/
def Kernel.withHeap (s : Kernel) (mach : Machine) (heap : KernelHeap) : Kernel :=
  { s with mach, heap }

/-- The heap `h` may have grown into `h'`. -/
structure KernelHeap.Grown (h h' : KernelHeap) : Prop where
  blocks : h'.blocks = h.blocks
  frees : h'.frees = h.frees
  le : h.stop ≤ h'.stop
  lt : h'.stop = h.stop ∨ h'.stop < 0xFFC00000

lemma heapGrow_spec (pages : ℕ) (s : Kernel) :
    ∃ m h, heapGrow pages s = s.withHeap m h ∧ m.cr3 = s.mach.cr3 ∧ s.heap.Grown h := by
  unfold heapGrow
  dsimp only
  split_ifs with hstop hres
  · exact ⟨s.mach, s.heap, rfl, rfl, rfl, rfl, le_rfl, Or.inl rfl⟩
  · refine ⟨_, _, rfl, vmmAllocPagesRegion_cr3 _ _ _ _ _, rfl, rfl, Nat.le_add_right _ _, ?_⟩
    exact Or.inr (not_le.1 (not_or.1 hstop).2)
  · exact ⟨_, _, rfl, vmmAllocPagesRegion_cr3 _ _ _ _ _, rfl, rfl, le_rfl, Or.inl rfl⟩

/-- `heap_alloc` fails, or it returns memory that lies in no outstanding block. -/
lemma heapGet_spec (size : ℕ) (c : HeapChoice) (s : Kernel) :
    ∃ m h, m.cr3 = s.mach.cr3 ∧ s.heap.Grown h ∧
      (heapGet size c s = (none, s.withHeap m h) ∨
        h.Fits c.addr size ∧ heapGet size c s =
          (some c.addr, s.withHeap m { h with blocks := (c.addr, size) :: h.blocks })) := by
  obtain ⟨m, h, hgrow, hcr3, hh⟩ := heapGrow_spec c.pages s
  refine ⟨m, h, hcr3, hh, ?_⟩
  unfold heapGet
  rw [hgrow]
  by_cases hfits : h.Fits c.addr size
  · exact Or.inr ⟨hfits, if_pos hfits⟩
  · exact Or.inl (if_neg hfits)

section Heap

variable {s : Kernel} {P : List ℕ} {L : QueueRef → List ThreadRef} {D : List (ℕ × ℕ)}

/-- A block at an address where no block starts. -/
lemma KernelHeap.Fits.ne {h : KernelHeap} {addr size : ℕ} (hf : h.Fits addr size) {b : ℕ × ℕ}
    (hb : b ∈ h.blocks) (hpos : 0 < b.2) : b.1 ≠ addr := by
  have hsize := hf.1
  have hdis := hf.2.2.2 b hb
  omega

lemma Inv.grow (h : Inv s P L D) {m : Machine} {k : KernelHeap} (hm : m.cr3 = s.mach.cr3)
    (hk : s.heap.Grown k) : Inv (s.withHeap m k) P L D := by
  have hh := h.heap
  refine { h with cr3 := hm.trans h.cr3, heap := ?_ }
  have hle := hk.le
  have hlt := hk.lt
  have hstop := hh.stop_le
  refine { hh with
    disjoint := hk.blocks ▸ hh.disjoint
    range := fun b hb => ?_
    stop_le := ?_
    proc := hk.blocks ▸ hh.proc
    stack := hk.blocks ▸ hh.stack
    held := hk.blocks ▸ hh.held }
  · obtain ⟨h1, h2, h3⟩ := hh.range b (hk.blocks ▸ hb)
    exact ⟨h1, h2, h3.trans hle⟩
  · show k.stop ≤ 0xFFC00000
    omega

/-- A new block is held by the handler that asked for it. -/
lemma Inv.hold (h : Inv s P L D) {addr size : ℕ} (hf : s.heap.Fits addr size) :
    Inv { s with heap := { s.heap with blocks := (addr, size) :: s.heap.blocks } } P L
      ((addr, size) :: D) := by
  have hh := h.heap
  have hne : ∀ b ∈ s.heap.blocks, b.1 ≠ addr := fun b hb => hf.ne hb (hh.range b hb).1
  refine { h with heap := ?_ }
  refine { hh with
    disjoint := List.pairwise_cons.2 ⟨fun b hb => ?_, hh.disjoint⟩
    range := fun b hb => ?_
    proc := fun p hp hi => List.mem_cons_of_mem _ (hh.proc p hp hi)
    stack := fun t ht => List.mem_cons_of_mem _ (hh.stack t ht)
    held := fun d hd => ?_
    held_ne_proc := fun d hd p hp => ?_
    held_ne_stack := fun d hd t ht => ?_
    held_nodup := List.nodup_cons.2 ⟨fun hd => ?_, hh.held_nodup⟩ }
  · exact hf.2.2.2 b hb
  · obtain rfl | hb := List.mem_cons.1 hb
    · exact ⟨hf.1, hf.2.1, hf.2.2.1⟩
    · exact hh.range b hb
  · obtain rfl | hd := List.mem_cons.1 hd
    · exact List.mem_cons_self
    · exact List.mem_cons_of_mem _ (hh.held d hd)
  · obtain rfl | hd := List.mem_cons.1 hd
    · by_cases hi : p = idleProcess
      · have := hf.2.1
        rintro rfl
        simp only [hi, heapBase, idleProcess] at this
        omega
      · exact hne _ (hh.proc p hp hi)
    · exact hh.held_ne_proc d hd p hp
  · obtain rfl | hd := List.mem_cons.1 hd
    · exact hne _ (hh.stack t ht)
    · exact hh.held_ne_stack d hd t ht
  · obtain ⟨d, hd, heq⟩ := List.mem_map.1 hd
    exact hne d (hh.held d hd) heq

/-- `heap_alloc` fails, or the handler holds what it returns. -/
lemma Inv.heapGet (h : Inv s P L D) (size : ℕ) (c : HeapChoice) :
    (∃ s', heapGet size c s = (none, s') ∧ Inv s' P L D) ∨
      ∃ s', Gummy.heapGet size c s = (some c.addr, s') ∧ Inv s' P L ((c.addr, size) :: D) := by
  obtain ⟨m, k, hm, hk, hget | ⟨hfits, hget⟩⟩ := heapGet_spec size c s
  · exact Or.inl ⟨_, hget, h.grow hm hk⟩
  · exact Or.inr ⟨_, hget, (h.grow hm hk).hold hfits⟩

/-- A held block may be freed. -/
lemma Inv.release (h : Inv s P L D) {addr size : ℕ} {D' : List (ℕ × ℕ)}
    (hD : D = (addr, size) :: D') : Inv (heapPut addr s) P L D' := by
  subst hD
  have hh := h.heap
  have hmem := List.mem_cons_self (a := (addr, size)) (l := D')
  have hkeep : ∀ b ∈ s.heap.blocks, b.1 ≠ addr → b ∈ s.heap.blocks.filter (·.1 ≠ addr) :=
    fun b hb hne => List.mem_filter.2 ⟨hb, by simpa using hne⟩
  have hnd := List.nodup_cons.1 hh.held_nodup
  refine { h with heap := ?_ }
  refine { hh with
    disjoint := hh.disjoint.filter _
    range := fun b hb => hh.range b (List.mem_of_mem_filter hb)
    proc := fun p hp hi => hkeep _ (hh.proc p hp hi) (hh.held_ne_proc _ hmem p hp)
    stack := fun t ht => hkeep _ (hh.stack t ht) (hh.held_ne_stack _ hmem t ht)
    held := fun d hd => hkeep d (hh.held d (List.mem_cons_of_mem _ hd)) fun heq => ?_
    held_ne_proc := fun d hd => hh.held_ne_proc d (List.mem_cons_of_mem _ hd)
    held_ne_stack := fun d hd => hh.held_ne_stack d (List.mem_cons_of_mem _ hd)
    held_nodup := hnd.2 }
  exact hnd.1 (List.mem_map.2 ⟨d, hd, heq⟩)

/-- The handler may also forget a block, which then stays allocated. -/
lemma Inv.forget (h : Inv s P L D) {d : ℕ × ℕ} {D' : List (ℕ × ℕ)} (hD : D = d :: D') :
    Inv s P L D' := by
  subst hD
  have hh := h.heap
  exact { h with heap := { hh with
    held := fun d hd => hh.held d (List.mem_cons_of_mem _ hd)
    held_ne_proc := fun d hd => hh.held_ne_proc d (List.mem_cons_of_mem _ hd)
    held_ne_stack := fun d hd => hh.held_ne_stack d (List.mem_cons_of_mem _ hd)
    held_nodup := (List.nodup_cons.1 hh.held_nodup).2 } }

end Heap

/-! ### The rest of the state -/

/-- The variables that belong to no process, no thread and no queue are the same, and so
are the results that system calls have returned. -/
structure SameGlobals (s s' : Kernel) : Prop where
  currentThread : s'.currentThread = s.currentThread := by rfl
  currentPid : s'.currentPid = s.currentPid := by rfl
  created : s'.created = s.created := by rfl
  ticks : s'.ticks = s.ticks := by rfl
  msPerTick : s'.msPerTick = s.msPerTick := by rfl
  eax : s'.eax = s.eax := by rfl
  halted : s'.halted = s.halted := by rfl

lemma SameGlobals.trans {s s' s'' : Kernel} (h : SameGlobals s s') (h' : SameGlobals s' s'') :
    SameGlobals s s'' where
  currentThread := h'.currentThread.trans h.currentThread
  currentPid := h'.currentPid.trans h.currentPid
  created := h'.created.trans h.created
  ticks := h'.ticks.trans h.ticks
  msPerTick := h'.msPerTick.trans h.msPerTick
  eax := h'.eax.trans h.eax
  halted := h'.halted.trans h.halted

end Gummy
