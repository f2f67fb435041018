import Gummy.Kernel.Invariant

/-!
Creating threads and processes keeps the invariant.

A new thread is not queued yet, and a new process is the head of the process list;
nothing else that is live changes.
-/

namespace Gummy

open CWord

variable {s : Kernel} {P : List ℕ} {L : QueueRef → List ThreadRef} {D : List (ℕ × ℕ)}

/-! ### Threads -/

/-- What `sched_create_thread` leaves alone: every thread in use and, but for the count
of its threads, every process. -/
structure ThreadFrame (s s' : Kernel) : Prop where
  thread : ∀ t, (s.thread t).process ≠ none → s'.thread t = s.thread t
  proc : ∀ p, ∃ n, s'.proc p = { s.proc p with numThreads := n }
  globals : SameGlobals s s'
  accepted : s'.accepted = s.accepted
  delivered : s'.delivered = s.delivered

/-- Clearing a slot that no thread uses. -/
lemma Inv.cleared (h : Inv s P L D) {t : ThreadRef} (hfree : (s.thread t).process = none) :
    Inv (clearThread t s) P L D := by
  have hne : ∀ u, (s.thread u).process ≠ none → u ≠ t := by
    rintro u hu rfl
    exact hu hfree
  have hthread : ∀ u, u ≠ t → (clearThread t s).thread u = s.thread u := fun u hu =>
    Function.update_of_ne hu _ _
  have hself : ((clearThread t s).thread t).process = none := by
    simp [clearThread, Thread.zero]
  have hqueued : ∀ q, ∀ u ∈ L q, u ≠ t := fun q u hu =>
    hne u (by simp [(h.queued q u hu).1])
  have howns : ∀ u, OwnsStack (clearThread t s) P u → OwnsStack s P u ∧ u ≠ t := by
    rintro u ⟨hp, hproc, hst⟩
    have hut : u ≠ t := by
      rintro rfl
      exact hproc hself
    rw [hthread u hut] at hproc hst
    exact ⟨⟨hp, hproc, hst⟩, hut⟩
  have hcur : s.currentThread ≠ t := hne _ (by simp [h.current_owner])
  have hh := h.heap
  refine { h with
    queues := ?_
    queued := fun q u hu => ?_
    owner := fun u hu p hp => ?_
    current_owner := ?_
    current_used := ?_
    stacked := fun u hu hi hp => ?_
    esp0 := fun hi => ?_
    heap := { hh with
      stack := fun u hu => ?_
      stack_inj := fun u u' hu hu' heq => ?_
      held_ne_stack := fun d hd u hu => ?_ } }
  · have hQ := h.queues
    refine { hQ with
      linked := fun k hk => (hQ.linked k hk).congr (fun u hu => ?_) fun u hu => ?_
      q_iff := fun u hu k => ?_ }
    · exact Function.update_of_ne (hqueued k u hu) _ _
    · exact Function.update_of_ne (hqueued k u hu) _ _
    · by_cases hut : u = t
      · subst hut
        have hnot : u ∉ L k := fun hk => hqueued k u hk rfl
        simp [clearThread, hnot]
      · rw [← hQ.q_iff u hu k]
        simp [clearThread, hut]
  · rw [hthread u (hqueued q u hu)]
    exact h.queued q u hu
  · by_cases hut : u = t
    · subst hut
      simp [hself] at hp
    · rw [hthread u hut] at hp
      exact h.owner u hu p hp
  · exact (congrArg Thread.process (hthread _ hcur)).trans h.current_owner
  · exact (congrArg Thread.state (hthread _ hcur)).trans_ne h.current_used
  · have hut : u ≠ t := by
      rintro rfl
      exact hp hself
    rw [hthread u hut] at hp ⊢
    exact h.stacked u hu hi hp
  · exact (h.esp0 hi).trans
      (congrArg (fun x => x.stack0 + kernelStackSize) (hthread _ hcur).symm)
  · obtain ⟨hu, hut⟩ := howns u hu
    rw [hthread u hut]
    exact hh.stack u hu
  · obtain ⟨hu, hut⟩ := howns u hu
    obtain ⟨hu', hut'⟩ := howns u' hu'
    rw [hthread u hut, hthread u' hut'] at heq
    exact hh.stack_inj u u' hu hu' heq
  · obtain ⟨hu, hut⟩ := howns u hu
    rw [hthread u hut]
    exact hh.held_ne_stack d hd u hu

/-- A slot that no thread uses becomes a thread with a held block as its kernel stack. -/
lemma Inv.adopt {stack0 : ℕ} (h : Inv s P L ((stack0, kernelStackSize) :: D)) {t : ThreadRef}
    (ht : t.process ∈ P) (hfree : (s.thread t).process = none) {f : Thread → Thread}
    (hproc : (f (s.thread t)).process = some t.process)
    (hstack : (f (s.thread t)).stack0 = stack0) : Inv (s.setThread t f) P L D := by
  have hne : ∀ u, (s.thread u).process ≠ none → u ≠ t := by
    rintro u hu rfl
    exact hu hfree
  have hthread : ∀ u, u ≠ t → (s.setThread t f).thread u = s.thread u := fun u hu =>
    Function.update_of_ne hu _ _
  have hself : (s.setThread t f).thread t = f (s.thread t) := Function.update_self ..
  have hold := List.mem_cons_self (a := (stack0, kernelStackSize)) (l := D)
  have hh := h.heap
  have hcur : s.currentThread ≠ t := hne _ (by simp [h.current_owner])
  have howns : ∀ u, OwnsStack (s.setThread t f) P u → u ≠ t → OwnsStack s P u := by
    rintro u hu hut
    rwa [OwnsStack, hthread u hut] at hu
  refine { h.forget rfl with
    queued := fun q u hu => ?_
    owner := fun u hu p hp => ?_
    current_owner := ?_
    current_used := ?_
    stacked := fun u hu hi hp => ?_
    esp0 := fun hi => ?_
    heap := { (h.forget rfl).heap with
      stack := fun u hu => ?_
      stack_inj := fun u u' hu hu' heq => ?_
      held_ne_stack := fun d hd u hu => ?_ } }
  · rw [hthread u (hne u (by simp [(h.queued q u hu).1]))]
    exact h.queued q u hu
  · by_cases hut : u = t
    · subst hut
      rw [hself, hproc] at hp
      exact (Option.some.inj hp).symm
    · rw [hthread u hut] at hp
      exact h.owner u hu p hp
  · exact (congrArg Thread.process (hthread _ hcur)).trans h.current_owner
  · exact (congrArg Thread.state (hthread _ hcur)).trans_ne h.current_used
  · by_cases hut : u = t
    · subst hut
      have hbase := (hh.range _ (hh.held _ hold)).2.1
      rw [hself, hstack]
      dsimp only at hbase
      simp only [heapBase] at hbase
      omega
    · rw [hthread u hut] at hp ⊢
      exact h.stacked u hu hi hp
  · exact (h.esp0 hi).trans
      (congrArg (fun x => x.stack0 + kernelStackSize) (hthread _ hcur).symm)
  · by_cases hut : u = t
    · subst hut
      rw [hself, hstack]
      exact hh.held _ hold
    · rw [hthread u hut]
      exact hh.stack u (howns u hu hut)
  · by_cases hut : u = t
    · by_cases hut' : u' = t
      · rw [hut, hut']
      · subst hut
        rw [hself, hstack, hthread u' hut'] at heq
        exact absurd heq.symm (hh.held_ne_stack _ hold u' (howns u' hu' hut'))
    · by_cases hut' : u' = t
      · subst hut'
        rw [hself, hstack, hthread u hut] at heq
        exact absurd heq (hh.held_ne_stack _ hold u (howns u hu hut))
      · rw [hthread u hut, hthread u' hut'] at heq
        exact hh.stack_inj u u' (howns u hu hut) (howns u' hu' hut') heq
  · by_cases hut : u = t
    · subst hut
      rw [hself, hstack]
      intro heq
      exact (List.nodup_cons.1 hh.held_nodup).1 (List.mem_map.2 ⟨d, hd, heq.symm⟩)
    · rw [hthread u hut]
      exact hh.held_ne_stack d (List.mem_cons_of_mem _ hd) u (howns u hu hut)

lemma freeSlot_some {proc : ℕ} {slot : Fin threadPerProcess} (h : freeSlot proc s = some slot) :
    (s.thread ⟨proc, slot⟩).process = none := by
  simpa using List.find?_some h

lemma allocUserStack_spec (proc stack sp : ℕ) (s : Kernel) :
    ∃ b m, allocUserStack proc stack sp s = (b, { s with mach := m }) ∧ m.cr3 = s.mach.cr3 := by
  unfold allocUserStack
  by_cases hp : proc = idleProcess
  · exact ⟨true, s.mach, if_pos hp, rfl⟩
  · rw [if_neg hp]
    have hcr3 := vmmAllocPagesRegionIn_cr3 s.mach (s.proc proc).cr3 userStackPages
      (vmmFlagsPresent ||| vmmFlagsRw ||| vmmFlagsUser) stack sp
    rcases heq : vmmAllocPagesRegionIn (s.proc proc).cr3 userStackPages
      (vmmFlagsPresent ||| vmmFlagsRw ||| vmmFlagsUser) stack sp s.mach with ⟨res, m⟩
    rw [heq] at hcr3
    exact ⟨res.isSome, m, rfl, hcr3⟩

/-- The outcome of `sched_create_thread`: at most one slot of the process changes, one
that no thread used, and on success it holds a thread that is not queued. -/
structure Created (s s' : Kernel) (proc : ℕ) (res : Option ThreadRef) : Prop where
  frame : ThreadFrame s s'
  slot : ∀ t, (s.thread t).process = none → res ≠ some t → (s'.thread t).process = none
  proc_eq : ∀ t, res = some t → t.process = proc
  unused : ∀ t, res = some t → (s.thread t).process = none
  owner : ∀ t, res = some t → (s'.thread t).process = some proc
  state : ∀ t, res = some t → (s'.thread t).state = .running
  sp0 : ∀ t, res = some t → ∃ ctx, (s'.thread t).sp0 = .fresh ctx

lemma ThreadFrame.refl (s : Kernel) : ThreadFrame s s :=
  ⟨fun _ _ => rfl, fun p => ⟨(s.proc p).numThreads, rfl⟩, {}, rfl, rfl⟩

/-- A slot of the process has been cleared and the machine and the heap have changed,
but there is no new thread. -/
lemma Created.none {t : ThreadRef} {s' : Kernel} (hfree : (s.thread t).process = none)
    {m : Machine} {k : KernelHeap} (hs' : s' = (clearThread t s).withHeap m k) (proc : ℕ) :
    Created s s' proc none := by
  subst hs'
  have hthread : ∀ u, u ≠ t → ((clearThread t s).withHeap m k).thread u = s.thread u :=
    fun u hu => Function.update_of_ne hu _ _
  refine ⟨⟨fun u hu => hthread u ?_, fun p => ⟨(s.proc p).numThreads, rfl⟩, {}, rfl, rfl⟩,
    fun u hu _ => ?_, ?_, ?_, ?_, ?_, ?_⟩
  · rintro rfl
    exact hu hfree
  · by_cases hut : u = t
    · subst hut
      simp [clearThread, Kernel.withHeap, Thread.zero]
    · rw [hthread u hut]
      exact hu
  all_goals
    intro u hu
    simp at hu

/-- A slot of the process has been cleared, filled in and counted. -/
lemma Created.some {t : ThreadRef} {s' : Kernel} (hfree : (s.thread t).process = .none)
    {m : Machine} {k : KernelHeap} {f : Thread → Thread} {n : ℕ → ℕ}
    (hs' : s' = (((clearThread t s).withHeap m k).setThread t f).setProc t.process
      fun p => { p with numThreads := n p.numThreads })
    (hproc : (f Thread.zero).process = some t.process)
    (hstate : (f Thread.zero).state = .running) {ctx : InterruptContext}
    (hsp0 : (f Thread.zero).sp0 = .fresh ctx) : Created s s' t.process (some t) := by
  subst hs'
  have hthread : ∀ u, u ≠ t → ((((clearThread t s).withHeap m k).setThread t f).setProc t.process
      fun p => { p with numThreads := n p.numThreads }).thread u = s.thread u := fun u hu =>
    (Function.update_of_ne hu _ _).trans (Function.update_of_ne hu _ _)
  have hself : ((((clearThread t s).withHeap m k).setThread t f).setProc t.process
      fun p => { p with numThreads := n p.numThreads }).thread t = f Thread.zero := by
    simp [Kernel.setProc, Kernel.setThread, Kernel.withHeap, clearThread]
  refine ⟨⟨fun u hu => hthread u ?_, fun p => ?_, {}, rfl, rfl⟩,
    fun u hu hres => ?_, ?_, ?_, ?_, ?_, ?_⟩
  · rintro rfl
    exact hu hfree
  · by_cases hp : p = t.process
    · subst hp
      exact ⟨n (s.proc t.process).numThreads, Function.update_self ..⟩
    · exact ⟨(s.proc p).numThreads, Function.update_of_ne hp _ _⟩
  · rw [hthread u fun hut => hres (hut ▸ rfl)]
    exact hu
  all_goals
    intro u hu
    obtain rfl := Option.some.inj hu
  · rfl
  · exact hfree
  · rw [hself, hproc]
  · rw [hself, hstate]
  · exact ⟨ctx, by rw [hself, hsp0]⟩

/-- `sched_create_thread`, for a process of the list. -/
theorem Inv.schedCreateThread (h : Inv s P L D) {proc : ℕ} (hp : proc ∈ P) (loc : ℕ)
    (c : HeapChoice) : ∃ res s', schedCreateThread loc proc c s = (res, s') ∧ Inv s' P L D ∧
      Created s s' proc res := by
  have hsame : Created s s proc none :=
    ⟨ThreadFrame.refl s, fun t ht _ => ht, by simp, by simp, by simp, by simp, by simp⟩
  unfold Gummy.schedCreateThread
  by_cases hloc : loc = 0
  · exact ⟨none, s, if_pos hloc, h, hsame⟩
  rw [if_neg hloc]
  by_cases hnum : (s.proc proc).numThreads ≥ threadPerProcess
  · exact ⟨none, s, if_pos hnum, h, hsame⟩
  rw [if_neg hnum]
  cases hslot : freeSlot proc s with
  | none => exact ⟨none, s, rfl, h, hsame⟩
  | some slot =>
    dsimp only
    have hfree := freeSlot_some hslot
    have hclear := h.cleared hfree
    obtain ⟨m, k, hm, hk, hget | ⟨hfits, hget⟩⟩ :=
      heapGet_spec kernelStackSize c (clearThread ⟨proc, slot⟩ s)
    · rw [hget]
      exact ⟨none, _, rfl, hclear.grow hm hk, Created.none hfree rfl proc⟩
    rw [hget]
    dsimp only
    have hhold := (hclear.grow hm hk).hold hfits
    obtain ⟨b, m', halloc, hm'⟩ := allocUserStack_spec proc (userStackEnd slot - userStackSize)
      (userStackEnd slot) ((clearThread ⟨proc, slot⟩ s).withHeap m
        { k with blocks := (c.addr, kernelStackSize) :: k.blocks })
    have hstack := hhold.congr (SameLinks.withMach P _ hm')
    rw [halloc]
    cases b with
    | false => exact ⟨none, _, rfl, hstack.release rfl, Created.none hfree rfl proc⟩
    | true =>
      refine ⟨some ⟨proc, slot⟩, _, rfl, ?_,
        Created.some (n := fun n => (n + 1) % 2 ^ 8) hfree rfl rfl rfl rfl⟩
      refine Inv.congr ?_ (SameLinks.setProc P _ proc fun _ => rfl)
      refine hstack.adopt hp ?_ rfl rfl
      simp [clearThread, Kernel.withHeap, Thread.zero]

/-! ### Processes -/

/-- Nothing live changes, when `P` is the process list. -/
structure LiveFrame (P : List ℕ) (s s' : Kernel) : Prop where
  proc : ∀ p ∈ P, s'.proc p = s.proc p
  thread : ∀ t, t.process ∈ P → s'.thread t = s.thread t
  globals : SameGlobals s s'
  accepted : ∀ p ∈ P, s'.accepted p = s.accepted p
  delivered : ∀ p ∈ P, s'.delivered p = s.delivered p

/-- The memory at `p` is ready to be linked as a process. -/
structure Blank (s : Kernel) (p : ℕ) : Prop where
  thread : ∀ i, s.thread ⟨p, i⟩ = Thread.zero
  q : ∀ i, s.queues.q ⟨p, i⟩ = none
  headNext : s.queues.headNext (.waiters p) = none
  headPrev : s.queues.headPrev (.waiters p) = none
  size : s.queues.size (.waiters p) = 0
  prev : (s.proc p).prev = none

/-- The state after linking, each process given once. -/
lemma linkProcess_eq {p : ℕ} (hp : s.firstProcess ≠ some p) :
    linkProcess p s =
      { s with
        proc := fun q =>
          if q = p then { s.proc q with next := s.firstProcess }
          else if s.firstProcess = some q then { s.proc q with prev := some p }
          else s.proc q
        firstProcess := some p } := by
  unfold linkProcess
  cases hf : s.firstProcess with
  | none =>
    have hproc : (s.setProc p fun x => { x with next := none }).proc = fun q =>
        if q = p then { s.proc q with next := none } else s.proc q := by
      funext q
      by_cases hq : q = p
      · subst hq
        simp
      · simp [hq, Kernel.setProc_of_ne]
    simp only [Kernel.setProcAt, Kernel.setProc, hf, reduceCtorEq, if_false] at hproc ⊢
    rw [hproc]
  | some first =>
    have hfp : first ≠ p := fun h => hp (h ▸ hf)
    have hproc : ((s.setProc p fun x => { x with next := some first }).setProc first
        fun x => { x with prev := some p }).proc = fun q =>
        if q = p then { s.proc q with next := some first }
        else if some first = some q then { s.proc q with prev := some p } else s.proc q := by
      funext q
      by_cases hq : q = p
      · subst hq
        simp [Kernel.setProc_of_ne _ _ hfp.symm]
      · by_cases hqf : q = first
        · subst hqf
          simp [hq, Kernel.setProc_of_ne]
        · simp [hq, hqf, Ne.symm hqf, Kernel.setProc_of_ne]
    simp only [Kernel.setProcAt, Kernel.setProc, hf] at hproc ⊢
    rw [hproc]

/-- A blank process is linked at the head of the list. -/
theorem Inv.link {p : ℕ} (h : Inv s P L ((p, sizeofProcess) :: D)) (hb : Blank s p) :
    Inv (linkProcess p s) (p :: P) L D := by
  have hold := List.mem_cons_self (a := (p, sizeofProcess)) (l := D)
  have hne : ∀ q ∈ P, q ≠ p := h.heap.held_ne_proc _ hold
  have hpP : p ∉ P := fun hp => hne p hp rfl
  have hfirst : s.firstProcess ≠ some p := by
    rw [h.first]
    exact fun hf => hpP (List.mem_of_head? hf)
  have hcur := hne _ h.current_mem
  have hth : ∀ t : ThreadRef, t.process = p → s.thread t = Thread.zero := by
    rintro ⟨q, i⟩ rfl
    exact hb.thread i
  have hmem : ∀ t : ThreadRef, t.process ∈ p :: P → (s.thread t).process ≠ none →
      t.process ∈ P := by
    intro t ht hproc
    obtain heq | ht := List.mem_cons.1 ht
    · exact absurd (congrArg Thread.process (hth t heq)) hproc
    · exact ht
  have howns : ∀ t, OwnsStack s (p :: P) t → OwnsStack s P t := fun t ht =>
    ⟨hmem t ht.1 ht.2.1, ht.2⟩
  have hh := h.heap
  rw [linkProcess_eq hfirst]
  constructor
  · -- the process list
    have hcons := h.linked.cons hpP
    rw [← h.first] at hcons
    refine hcons.congr (fun q _ => ?_) fun q _ => ?_
    · dsimp only
      split_ifs with hq hq'
      · simp [hq]
      · simp [hq]
      · simp [hq]
    · dsimp only
      split_ifs with hq hq'
      · subst hq
        simp [Linked.setAt, hfirst, hb.prev]
      · simp [Linked.setAt, hq']
      · simp [Linked.setAt, hq', hq]
  · rfl
  · exact List.mem_cons_of_mem _ h.idle_mem
  · -- the queues
    have hQ := h.queues
    have hLp : L (.waiters p) = [] := by
      refine List.eq_nil_iff_forall_not_mem.2 fun t ht => ?_
      exact hpP (hQ.live _ t ht).1
    have hcases : ∀ k, LiveQueue (p :: P) k → k = .waiters p ∨ LiveQueue P k := by
      rintro (_ | _ | _ | _ | q) hk
      on_goal 5 =>
        obtain rfl | hq := List.mem_cons.1 hk
        · exact Or.inl rfl
        · exact Or.inr hq
      all_goals exact Or.inr trivial
    have hlive : ∀ k, LiveQueue P k → LiveQueue (p :: P) k := by
      rintro (_ | _ | _ | _ | q) hk
      on_goal 5 => exact List.mem_cons_of_mem _ hk
      all_goals trivial
    refine ⟨fun k hk => ?_, fun k hk => ?_, fun k hk => ?_, fun k hk => ?_, fun t ht k => ?_,
      fun k t ht => ?_⟩
    · obtain rfl | hk := hcases k hk
      · rw [hLp]
        exact Linked.nil
      · exact hQ.linked k hk
    · obtain rfl | hk := hcases k hk
      · rw [hLp]
        exact hb.headNext
      · exact hQ.headNext k hk
    · obtain rfl | hk := hcases k hk
      · rw [hLp]
        exact hb.headPrev
      · exact hQ.headPrev k hk
    · obtain rfl | hk := hcases k hk
      · rw [hLp]
        exact hb.size
      · exact hQ.size k hk
    · obtain heq | ht := List.mem_cons.1 ht
      · obtain ⟨q, i⟩ := t
        dsimp only at heq
        subst heq
        have hnot : (⟨q, i⟩ : ThreadRef) ∉ L k := fun hk => hpP (hQ.live k _ hk).2
        simp [hb.q i, hnot]
      · exact hQ.q_iff t ht k
    · obtain ⟨hk, ht'⟩ := hQ.live k t ht
      exact ⟨hlive k hk, List.mem_cons_of_mem _ ht'⟩
  · exact h.queued
  · exact h.waiters
  · intro t ht q (hq : (s.thread t).process = _)
    exact h.owner t (hmem t ht (by simp [hq])) q hq
  · exact List.mem_cons_of_mem _ h.current_mem
  · exact h.current_owner
  · exact h.current_used
  · exact fun t ht hi hp => h.stacked t (hmem t ht hp) hi hp
  · exact h.esp0
  · exact h.currentProcess
  · dsimp only
    rw [if_neg hcur, h.cr3]
    split_ifs <;> rfl
  · -- the heap
    refine { h.heap with
      proc := fun q hq hi => ?_
      stack := fun t ht => hh.stack t (howns t ht)
      stack_inj := fun t t' ht ht' => hh.stack_inj t t' (howns t ht) (howns t' ht')
      held := fun d hd => hh.held d (List.mem_cons_of_mem _ hd)
      held_ne_proc := fun d hd q hq => ?_
      held_ne_stack := fun d hd t ht => hh.held_ne_stack d (List.mem_cons_of_mem _ hd) t
        (howns t ht)
      held_nodup := (List.nodup_cons.1 hh.held_nodup).2 }
    · obtain rfl | hq := List.mem_cons.1 hq
      · exact hh.held _ hold
      · exact hh.proc q hq hi
    · obtain rfl | hq := List.mem_cons.1 hq
      · intro heq
        exact (List.nodup_cons.1 hh.held_nodup).1 (List.mem_map.2 ⟨d, hd, heq.symm⟩)
      · exact hh.held_ne_proc d (List.mem_cons_of_mem _ hd) q hq

/-- The outcome of `sched_create_process` when it succeeds. -/
structure ProcessCreated (P : List ℕ) (s s' : Kernel) (p : ℕ) : Prop where
  not_mem : p ∉ P
  ne_idle : p ≠ idleProcess
  proc : ∀ q ∈ P, ∃ pv, s'.proc q = { s.proc q with prev := pv }
  thread : ∀ t, t.process ∈ P → s'.thread t = s.thread t
  thread_new : ∀ i, s'.thread ⟨p, i⟩ = Thread.zero
  pid : (s'.proc p).pid = s.currentPid
  dad : (s'.proc p).dad = some s.currentThread.process
  state : (s'.proc p).state = .normal
  numThreads : (s'.proc p).numThreads = 0
  ringBuffer : ∃ buf, (s'.proc p).ringBuffer = ringBufferInit buf sizeofMessage ipcQueueSize
  accepted : s'.accepted = Function.update s.accepted p []
  delivered : s'.delivered = Function.update s.delivered p []
  currentPid : s'.currentPid = u32 (s.currentPid + 1)
  created : s'.created = s.created + 1
  currentThread : s'.currentThread = s.currentThread
  ticks : s'.ticks = s.ticks
  msPerTick : s'.msPerTick = s.msPerTick
  eax : s'.eax = s.eax
  halted : s'.halted = s.halted

/-- Clearing memory that holds no live process. -/
lemma SameLinks.clearProcess {p : ℕ} (hp : ∀ q ∈ P, q ≠ p) (s : Kernel) :
    SameLinks P s (clearProcess p s) := by
  have hthread : ∀ t : ThreadRef, t.process ∈ P → t.process ≠ p := fun t ht => hp _ ht
  refine ⟨fun q hq => ?_, fun t ht => ?_, ⟨fun t ht => ?_, ?_⟩, rfl, rfl, rfl, rfl, rfl, rfl, rfl⟩
  · simp [Gummy.clearProcess, hp q hq]
  · simp [Gummy.clearProcess, hthread t ht]
  · simp [Gummy.clearProcess, hthread t ht]
  · rintro (_ | _ | _ | _ | q) hq
    on_goal 5 => have := hp q hq
    all_goals simp_all [Gummy.clearProcess]

lemma fillProcess_proc (p : ℕ) (s : Kernel) :
    (fillProcess p s).proc = Function.update s.proc p { s.proc p with
      numThreads := 0, pid := s.currentPid, dad := (s.thread s.currentThread).process
      ringBuffer := ringBufferInit (s.proc p).ringBuffer.buf sizeofMessage ipcQueueSize } := by
  funext q
  by_cases hq : q = p
  · subst hq
    simp [fillProcess, Kernel.setProc]
  · simp [fillProcess, Kernel.setProc, hq]

lemma SameLinks.fillProcess {p : ℕ} (hp : ∀ q ∈ P, q ≠ p) (s : Kernel) :
    SameLinks P s (fillProcess p s) := by
  refine ⟨fun q hq => ?_, fun _ _ => rfl, ⟨fun _ _ => ⟨rfl, rfl, rfl⟩, ?_⟩, rfl, rfl, rfl, rfl,
    rfl, rfl, rfl⟩
  · rw [fillProcess_proc, Function.update_of_ne (hp q hq)]
  · rintro (_ | _ | _ | _ | q) hq
    on_goal 5 => have := hp q hq
    all_goals simp_all [Gummy.fillProcess, queueInit, Kernel.setProc]

lemma clearProcess_proc (p : ℕ) (s : Kernel) :
    (clearProcess p s).proc = Function.update s.proc p Process.zero := rfl

lemma clearProcess_thread {p : ℕ} {t : ThreadRef} (s : Kernel) (ht : t.process ≠ p) :
    (clearProcess p s).thread t = s.thread t := if_neg ht

/-- The memory at `p`, cleared and filled in, is ready to be linked. -/
lemma Blank.of_fill (s : Kernel) (p cr3 : ℕ) (m : Machine) :
    Blank (fillProcess p ({ clearProcess p s with mach := m }.setProc p ({ · with cr3 }))) p where
  thread i := if_pos rfl
  q i := if_pos rfl
  headNext := Function.update_self ..
  headPrev := Function.update_self ..
  size := Function.update_self ..
  prev := by
    rw [fillProcess_proc, Function.update_self, Kernel.setProc_self]
    simp [clearProcess_proc, Process.zero]

/-- Setting up a process at a held block either fails, and nothing live changes, or it puts
a new process without threads at the head of the list. -/
theorem Inv.setUpProcess {p : ℕ} (h : Inv s P L ((p, sizeofProcess) :: D)) (hi : p ≠ idleProcess) :
    ∃ res s', setUpProcess p s = (res, s') ∧
      ((res = none ∧ Inv s' P L D ∧ LiveFrame P s s') ∨
        res = some p ∧ Inv s' (p :: P) L D ∧ ProcessCreated P s s' p) := by
  have hne : ∀ q ∈ P, q ≠ p := h.heap.held_ne_proc _ List.mem_cons_self
  have hnet : ∀ t : ThreadRef, t.process ∈ P → t.process ≠ p := fun t ht => hne _ ht
  rcases hclone : vmmClone (clearProcess p s).mach with ⟨cr3, m⟩
  have hcr3 : m.cr3 = (clearProcess p s).mach.cr3 := by
    have := vmmClone_cr3 (clearProcess p s).mach
    rwa [hclone] at this
  have hset := ((h.congr (SameLinks.clearProcess hne s)).congr (SameLinks.withMach P _ hcr3)).congr
    (SameLinks.setProc_outside _ hne ({ · with cr3 }))
  have hsame : ∀ q ∈ P, ({ clearProcess p s with mach := m }.setProc p ({ · with cr3 })).proc q
      = s.proc q := fun q hq => by
    rw [Kernel.setProc_of_ne _ _ (hne q hq)]
    exact Function.update_of_ne (hne q hq) _ _
  rw [Gummy.setUpProcess]
  dsimp only
  rw [hclone]
  dsimp only
  by_cases h0 : cr3 = 0
  · rw [if_pos h0]
    refine ⟨none, _, rfl, Or.inl ⟨rfl, hset.release rfl, hsame,
      fun t ht => clearProcess_thread s (hnet t ht), {},
      fun q hq => Function.update_of_ne (hne q hq) _ _,
      fun q hq => Function.update_of_ne (hne q hq) _ _⟩⟩
  · rw [if_neg h0]
    have hfill := hset.congr (SameLinks.fillProcess hne _)
    have hblank := Blank.of_fill s p cr3 m
    have hfirst : (fillProcess p ({ clearProcess p s with mach := m }.setProc p
        ({ · with cr3 }))).firstProcess ≠ some p := by
      rw [hfill.first]
      exact fun hf => hne p (List.mem_of_head? hf) rfl
    have hcur : s.currentThread.process ≠ p := hnet _ h.current_mem
    refine ⟨some p, _, rfl, Or.inr ⟨rfl, hfill.link hblank, ?_⟩⟩
    have hnew : (linkProcess p (fillProcess p ({ clearProcess p s with mach := m }.setProc p
        ({ · with cr3 })))).proc p = { Process.zero with
          cr3, next := s.firstProcess, pid := s.currentPid, dad := some s.currentThread.process
          ringBuffer := ringBufferInit (fun _ => 0) sizeofMessage ipcQueueSize } := by
      have howner := h.current_owner
      rw [← clearProcess_thread s hcur] at howner
      rw [linkProcess_eq hfirst, fillProcess_proc]
      simp only [if_true, Function.update_self, Kernel.setProc_self, clearProcess_proc]
      simp only [Process.zero, ringBufferInit, Process.mk.injEq, true_and, and_true]
      exact ⟨rfl, howner, rfl⟩
    rw [linkProcess_eq hfirst] at hnew ⊢
    refine ⟨fun hp => hne p hp rfl, hi, fun q hq => ?_, fun t ht => clearProcess_thread s
        (hnet t ht),
      fun i => if_pos rfl, ?_, ?_, ?_, ?_, ?_, rfl, rfl, rfl, rfl, rfl, rfl, rfl, rfl, rfl⟩
    · dsimp only
      rw [if_neg (hne q hq), fillProcess_proc, Function.update_of_ne (hne q hq), hsame q hq]
      split_ifs
      · exact ⟨some p, rfl⟩
      · exact ⟨(s.proc q).prev, rfl⟩
    · rw [hnew]
    · rw [hnew]
    · rw [hnew]
      rfl
    · rw [hnew]
      rfl
    · rw [hnew]
      exact ⟨_, rfl⟩

/-- `sched_create_process` either fails, and nothing live changes, or it puts a new process
without threads at the head of the list. -/
theorem Inv.schedCreateProcess (h : Inv s P L D) (c : HeapChoice) :
    ∃ res s', schedCreateProcess c s = (res, s') ∧
      ((res = none ∧ Inv s' P L D ∧ LiveFrame P s s') ∨
        ∃ p, res = some p ∧ Inv s' (p :: P) L D ∧ ProcessCreated P s s' p) := by
  unfold Gummy.schedCreateProcess
  obtain ⟨m, k, hm, hk, hget | ⟨hfits, hget⟩⟩ := heapGet_spec sizeofProcess c s
  · rw [hget]
    exact ⟨none, _, rfl, Or.inl ⟨rfl, h.grow hm hk, fun _ _ => rfl, fun _ _ => rfl, {},
      fun _ _ => rfl, fun _ _ => rfl⟩⟩
  rw [hget]
  have hhold := (h.grow hm hk).hold hfits
  have hi : c.addr ≠ idleProcess := by
    have := hfits.2.1
    simp only [heapBase, idleProcess] at this ⊢
    omega
  obtain ⟨res, s', heq, ⟨hres, hinv, hframe⟩ | ⟨hres, hinv, hnew⟩⟩ := hhold.setUpProcess hi
  · exact ⟨res, s', heq, Or.inl ⟨hres, hinv, { hframe with
      globals := .trans {} hframe.globals }⟩⟩
  · exact ⟨res, s', heq, Or.inr ⟨c.addr, hres, hinv, { hnew with }⟩⟩

end Gummy
