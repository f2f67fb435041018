import Gummy.Kernel.Creation
import Mathlib.Data.Finset.Card

/-!
Destroying processes keeps the invariant.

A process goes through four stages: its children get another parent, its threads leave
their queues and give up their kernel stacks, it is unlinked, and its memory is freed.
What was live and is not part of it does not change.
-/

namespace Gummy

open CWord

variable {s : Kernel} {P : List ℕ} {L : QueueRef → List ThreadRef} {D : List (ℕ × ℕ)}

/-! ### Leaving the queues -/

/-- The lists without the threads of a process. -/
def dropProcess (L : QueueRef → List ThreadRef) (p : ℕ) : QueueRef → List ThreadRef :=
  fun q => (L q).filter (·.process ≠ p)

@[simp] lemma mem_dropProcess {p : ℕ} {q : QueueRef} {t : ThreadRef} :
    t ∈ dropProcess L p q ↔ t ∈ L q ∧ t.process ≠ p := by
  simp [dropProcess]

/-- The lists without the given slots of a process. -/
def dropSlots (L : QueueRef → List ThreadRef) (p : ℕ) (is : List (Fin threadPerProcess)) :
    QueueRef → List ThreadRef :=
  fun q => (L q).filter fun t => ¬ (t.process = p ∧ t.slot ∈ is)

lemma dropSlots_nil (L : QueueRef → List ThreadRef) (p : ℕ) : dropSlots L p [] = L := by
  funext q
  simp [dropSlots]

lemma dropSlots_cons (h : ∀ q, (L q).Nodup) (p : ℕ) (i : Fin threadPerProcess)
    (is : List (Fin threadPerProcess)) :
    dropSlots (fun q => (L q).erase ⟨p, i⟩) p is = dropSlots L p (i :: is) := by
  funext q
  simp only [dropSlots]
  rw [(h q).erase_eq_filter, List.filter_filter]
  refine List.filter_congr fun t _ => ?_
  obtain ⟨r, j⟩ := t
  by_cases hr : r = p <;> by_cases hj : j = i <;> simp [hr, hj]

lemma dropSlots_all (L : QueueRef → List ThreadRef) (p : ℕ) :
    dropSlots L p (List.finRange threadPerProcess) = dropProcess L p := by
  funext q
  simp [dropSlots, dropProcess, List.mem_finRange]

/-- Taking some threads of a process out of their queues. -/
lemma Inv.removeSlots (h : Inv s P L D) {p : ℕ} (hp : p ∈ P) (is : List (Fin threadPerProcess)) :
    Inv { s with queues := is.foldl (fun Q i => queueRemove Q ⟨p, i⟩) s.queues } P
      (dropSlots L p is) D := by
  induction is generalizing s L with
  | nil =>
    rw [dropSlots_nil]
    exact h
  | cons i is ih =>
    have hrem := h.remove (t := ⟨p, i⟩) hp
    rw [← dropSlots_cons h.queues.nodup]
    exact ih hrem

/-- `sched_destroy_current_process`: the threads of the process leave their queues. -/
theorem Inv.killCurrentProcess (h : Inv s P L D) {p : ℕ} (hp : p ∈ P) :
    Inv (killCurrentProcess p s) P (dropProcess L p) D := by
  have hrem := h.removeSlots hp (List.finRange threadPerProcess)
  rw [dropSlots_all] at hrem
  exact hrem.congr (SameLinks.setProc P _ p (f := ({ · with state := .dying })) fun _ => rfl)

/-! ### Threads -/

/-- What destroying threads of `p` leaves alone: the threads of other processes and, but
for the count of its threads, every process. -/
structure Retired (s s' : Kernel) (p : ℕ) : Prop where
  thread : ∀ t, t.process ≠ p → s'.thread t = s.thread t
  proc : ∀ q, q ≠ p → s'.proc q = s.proc q
  proc_self : ∃ n, s'.proc p = { s.proc p with numThreads := n }
  globals : SameGlobals s s'
  accepted : s'.accepted = s.accepted
  delivered : s'.delivered = s.delivered

lemma Retired.refl (s : Kernel) (p : ℕ) : Retired s s p :=
  ⟨fun _ _ => rfl, fun _ _ => rfl, ⟨(s.proc p).numThreads, rfl⟩, {}, rfl, rfl⟩

lemma Retired.trans {s s' s'' : Kernel} {p : ℕ} (h : Retired s s' p) (h' : Retired s' s'' p) :
    Retired s s'' p where
  thread t ht := (h'.thread t ht).trans (h.thread t ht)
  proc q hq := (h'.proc q hq).trans (h.proc q hq)
  proc_self := by
    obtain ⟨n, hn⟩ := h.proc_self
    obtain ⟨n', hn'⟩ := h'.proc_self
    exact ⟨n', by rw [hn', hn]⟩
  globals := h.globals.trans h'.globals
  accepted := h'.accepted.trans h.accepted
  delivered := h'.delivered.trans h.delivered

/-- A thread that is not queued becomes free, and the handler holds its kernel stack. -/
lemma Inv.retire (h : Inv s P L D) {t : ThreadRef} (hcur : s.currentThread ≠ t)
    (hqueued : ∀ q, t ∉ L q)
    {D' : List (ℕ × ℕ)}
    (hD : D' = D ∨ OwnsStack s P t ∧ D' = ((s.thread t).stack0, kernelStackSize) :: D) :
    Inv (s.setThread t ({ · with state := .free })) P L D' := by
  have hthread : ∀ u, u ≠ t → (s.setThread t ({ · with state := .free })).thread u = s.thread u :=
    fun u hu => Kernel.setThread_of_ne s _ hu
  have hself : (s.setThread t ({ · with state := .free })).thread t =
      { s.thread t with state := .free } := Kernel.setThread_self s _
  have hproc : ∀ u, ((s.setThread t ({ · with state := .free })).thread u).process =
      (s.thread u).process := by
    intro u
    by_cases hu : u = t
    · rw [hu, hself]
    · rw [hthread u hu]
  have howns : ∀ u, OwnsStack (s.setThread t ({ · with state := .free })) P u →
      OwnsStack s P u ∧ u ≠ t := by
    rintro u ⟨hp, hpr, hst, h0⟩
    have hut : u ≠ t := by
      rintro rfl
      exact hst (congrArg Thread.state hself)
    rw [hthread u hut] at hpr hst h0
    exact ⟨⟨hp, hpr, hst, h0⟩, hut⟩
  have hh := h.heap
  have hmem : ∀ d ∈ D', d ∈ D ∨
      OwnsStack s P t ∧ d = ((s.thread t).stack0, kernelStackSize) := by
    intro d hd
    obtain rfl | ⟨ht, rfl⟩ := hD
    · exact Or.inl hd
    · obtain rfl | hd := List.mem_cons.1 hd
      · exact Or.inr ⟨ht, rfl⟩
      · exact Or.inl hd
  refine { h with
    queued := fun q u hu => ?_
    owner := fun u hu p hp => h.owner u hu p (hproc u ▸ hp)
    current_owner := (hproc _).trans h.current_owner
    current_used := (congrArg Thread.state (hthread _ hcur)).trans_ne h.current_used
    stacked := fun u hu hi hp => ?_
    esp0 := fun hi => (h.esp0 hi).trans
      (congrArg (fun x => x.stack0 + kernelStackSize) (hthread _ hcur).symm)
    heap := { hh with
      stack := fun u hu => ?_
      stack_inj := fun u u' hu hu' heq => ?_
      held := fun d hd => ?_
      held_ne_proc := fun d hd p hp => ?_
      held_ne_stack := fun d hd u hu => ?_
      held_nodup := ?_ } }
  · have hut : u ≠ t := by
      rintro rfl
      exact hqueued q hu
    rw [hthread u hut]
    exact h.queued q u hu
  · have hstack : ((s.setThread t ({ · with state := .free })).thread u).stack0 =
        (s.thread u).stack0 := by
      by_cases hut : u = t
      · rw [hut, hself]
      · rw [hthread u hut]
    rw [hstack]
    exact h.stacked u hu hi (hproc u ▸ hp)
  · obtain ⟨hu, hut⟩ := howns u hu
    rw [hthread u hut]
    exact hh.stack u hu
  · obtain ⟨hu, hut⟩ := howns u hu
    obtain ⟨hu', hut'⟩ := howns u' hu'
    rw [hthread u hut, hthread u' hut'] at heq
    exact hh.stack_inj u u' hu hu' heq
  · obtain hd | ⟨ht, rfl⟩ := hmem d hd
    · exact hh.held d hd
    · exact hh.stack t ht
  · obtain hd | ⟨ht, rfl⟩ := hmem d hd
    · exact hh.held_ne_proc d hd p hp
    · exact hh.proc_ne_stack ht hp
  · obtain ⟨hu, hut⟩ := howns u hu
    rw [hthread u hut]
    obtain hd | ⟨ht, rfl⟩ := hmem d hd
    · exact hh.held_ne_stack d hd u hu
    · exact fun heq => hut (hh.stack_inj u t hu ht heq)
  · obtain rfl | ⟨ht, rfl⟩ := hD
    · exact hh.held_nodup
    · refine List.nodup_cons.2 ⟨fun hd => ?_, hh.held_nodup⟩
      obtain ⟨d, hd, heq⟩ := List.mem_map.1 hd
      exact hh.held_ne_stack d hd t ht heq.symm

/-- `sched_destroy_thread`, for a slot of a live process that is not running. -/
theorem Inv.schedDestroyThread (h : Inv s P L D) {t : ThreadRef} (ht : t.process ∈ P)
    (hcur : t ≠ s.currentThread) :
    Inv (schedDestroyThread t s) P (fun q => (L q).erase t) D ∧
      Retired s (schedDestroyThread t s) t.process := by
  have hskip : (∀ q, t ∉ L q) → Inv s P (fun q => (L q).erase t) D := fun hnot => by
    have herase : (fun q => (L q).erase t) = L :=
      funext fun q => List.erase_of_not_mem (hnot q)
    rwa [herase]
  unfold Gummy.schedDestroyThread
  cases hproc : (s.thread t).process with
  | none =>
    exact ⟨hskip fun q hq => by simp [(h.queued q t hq).1] at hproc, Retired.refl s _⟩
  | some p =>
    dsimp only
    by_cases hfree : (s.thread t).state = .free
    · rw [if_pos hfree]
      exact ⟨hskip fun q hq => (h.queued q t hq).2 hfree, Retired.refl s _⟩
    rw [if_neg hfree, if_neg hcur]
    obtain rfl := h.owner t ht p hproc
    have hrem := h.remove ht
    have hnot : ∀ q, t ∉ (L q).erase t := fun q => (h.queues.nodup q).not_mem_erase
    -- the user stack is freed first; only the machine changes
    obtain ⟨m, hm, hif⟩ : ∃ m : Machine, m.cr3 = s.mach.cr3 ∧
        (if (s.thread t).stack ≠ 0 then { s with mach :=
          (vmmFreePagesIn (s.proc t.process).cr3 userStackPages (s.thread t).stack s.mach).2 }
          else s) = { s with mach := m } := by
      by_cases hst : (s.thread t).stack ≠ 0
      · exact ⟨_, vmmFreePagesIn_cr3 s.mach _ _ _, if_pos hst⟩
      · exact ⟨s.mach, rfl, if_neg hst⟩
    rw [hif]
    have hmach := (hrem.congr (SameLinks.withMach P _ hm)).congr (SameLinks.setProc P _ t.process
      (f := fun p => { p with numThreads := (p.numThreads + 2 ^ 8 - 1) % 2 ^ 8 }) fun _ => rfl)
    have hframe : ∀ k : KernelHeap, Retired s ((({ s with
        mach := m, heap := k, queues := queueRemove s.queues t } : Kernel).setProc t.process
        fun p => { p with numThreads := (p.numThreads + 2 ^ 8 - 1) % 2 ^ 8 }).setThread t
        ({ · with state := .free })) t.process := by
      refine fun k => ⟨fun u hu => Function.update_of_ne ?_ _ _,
        fun q hq => Function.update_of_ne hq _ _, ⟨_, Function.update_self ..⟩, {}, rfl, rfl⟩
      rintro rfl
      exact hu rfl
    by_cases h0 : (s.thread t).stack0 ≠ 0
    · rw [if_pos h0]
      have howns : OwnsStack s P t := ⟨ht, by simp [hproc], hfree, h0⟩
      exact ⟨(hmach.retire (Ne.symm hcur) hnot (Or.inr ⟨howns, rfl⟩)).release rfl, hframe _⟩
    · rw [if_neg h0]
      exact ⟨hmach.retire (Ne.symm hcur) hnot (Or.inl rfl), hframe _⟩

/-- The loop of `sched_destroy_process` over the slots. -/
lemma Inv.destroySlots (h : Inv s P L D) {p : ℕ} (hp : p ∈ P)
    (hcur : s.currentThread.process ≠ p) (is : List (Fin threadPerProcess)) :
    Inv (is.foldl (fun s i => Gummy.schedDestroyThread ⟨p, i⟩ s) s) P (dropSlots L p is) D ∧
      Retired s (is.foldl (fun s i => Gummy.schedDestroyThread ⟨p, i⟩ s) s) p := by
  induction is generalizing s L with
  | nil =>
    rw [dropSlots_nil]
    exact ⟨h, Retired.refl s p⟩
  | cons i is ih =>
    have hne : (⟨p, i⟩ : ThreadRef) ≠ s.currentThread := by
      intro heq
      exact hcur (heq ▸ rfl)
    obtain ⟨hinv, hframe⟩ := h.schedDestroyThread (t := ⟨p, i⟩) hp hne
    obtain ⟨hinv', hframe'⟩ := ih hinv (hframe.globals.currentThread ▸ hcur)
    rw [← dropSlots_cons h.queues.nodup]
    exact ⟨hinv', hframe.trans hframe'⟩

/-! ### Processes -/

/-- The state after the reparenting loop, each process given once. -/
lemma foldl_reparent (p : ℕ) (l : List ℕ) (s : Kernel) :
    l.foldl (fun s q => if (s.proc q).dad = some p then
        s.setProc q ({ · with dad := (s.proc p).dad }) else s) s =
      { s with proc := fun q =>
          if q ∈ l ∧ (s.proc q).dad = some p then { s.proc q with dad := (s.proc p).dad }
          else s.proc q } := by
  induction l generalizing s with
  | nil => simp
  | cons a l ih =>
    rw [List.foldl_cons, ih]
    by_cases ha : (s.proc a).dad = some p
    · rw [if_pos ha]
      -- the father of `p` stays the same, even if `p` itself is visited
      have hdad : ((s.setProc a ({ · with dad := (s.proc p).dad })).proc p).dad =
          (s.proc p).dad := by
        by_cases hap : p = a
        · subst hap
          simp
        · rw [Kernel.setProc_of_ne _ _ hap]
      have hproc : ∀ q, (if q ∈ l ∧ ((s.setProc a ({ · with dad := (s.proc p).dad })).proc q).dad =
            some p then { (s.setProc a ({ · with dad := (s.proc p).dad })).proc q with
              dad := (s.proc p).dad }
            else (s.setProc a ({ · with dad := (s.proc p).dad })).proc q) =
          if q ∈ a :: l ∧ (s.proc q).dad = some p then { s.proc q with dad := (s.proc p).dad }
          else s.proc q := by
        intro q
        by_cases hq : q = a
        · subst hq
          simp [ha]
        · simp [Kernel.setProc_of_ne _ _ hq, hq]
      simp only [hdad, hproc]
      rfl
    · rw [if_neg ha]
      congr 1
      funext q
      by_cases hq : q = a
      · subst hq
        simp [ha]
      · simp [hq]

lemma setNext_eq (s : Kernel) (o v : Option ℕ) :
    s.setProcAt o ({ · with next := v }) =
      { s with proc := fun q => { s.proc q with
        next := Linked.setAt (fun q => (s.proc q).next) o v q } } := by
  cases o with
  | none => simp [Kernel.setProcAt, Linked.setAt_none]
  | some r =>
    have hproc : ∀ q, (s.setProc r ({ · with next := v })).proc q = { s.proc q with
        next := Linked.setAt (fun q => (s.proc q).next) (some r) v q } := by
      intro q
      by_cases hq : q = r
      · subst hq
        simp [Linked.setAt]
      · simp [Linked.setAt, Kernel.setProc_of_ne _ _ hq, Ne.symm hq]
    simp only [← hproc]
    rfl

lemma setPrev_eq (s : Kernel) (o v : Option ℕ) :
    s.setProcAt o ({ · with prev := v }) =
      { s with proc := fun q => { s.proc q with
        prev := Linked.setAt (fun q => (s.proc q).prev) o v q } } := by
  cases o with
  | none => simp [Kernel.setProcAt, Linked.setAt_none]
  | some r =>
    have hproc : ∀ q, (s.setProc r ({ · with prev := v })).proc q = { s.proc q with
        prev := Linked.setAt (fun q => (s.proc q).prev) (some r) v q } := by
      intro q
      by_cases hq : q = r
      · subst hq
        simp [Linked.setAt]
      · simp [Linked.setAt, Kernel.setProc_of_ne _ _ hq, Ne.symm hq]
    simp only [← hproc]
    rfl

/-- Unlinking from the process list, each process given once. -/
lemma unlinkProcess_eq (p : ℕ) (s : Kernel) :
    unlinkProcess p s =
      { s with
        proc := fun q => { s.proc q with
          next := Linked.setAt (fun q => (s.proc q).next) (s.proc p).prev (s.proc p).next q
          prev := Linked.setAt (fun q => (s.proc q).prev) (s.proc p).next (s.proc p).prev q }
        firstProcess := if s.firstProcess = some p then (s.proc p).next else s.firstProcess } := by
  have hself : Linked.setAt (fun q => (s.proc q).next) (s.proc p).prev (s.proc p).next p =
      (s.proc p).next := by
    simp [Linked.setAt]
  unfold unlinkProcess
  dsimp only
  rw [setNext_eq]
  dsimp only
  rw [setPrev_eq]
  dsimp only
  rw [hself]
  split_ifs <;> rfl

/-- Unlinking a process none of whose threads is queued or running. -/
lemma Inv.unlinkProcess (h : Inv s P L D) {p : ℕ} (hp : p ∈ P) (hi : p ≠ idleProcess)
    (hcur : s.currentThread.process ≠ p) (hL : ∀ q, ∀ t ∈ L q, t.process ≠ p) :
    Inv (unlinkProcess p s) (P.erase p) L ((p, sizeofProcess) :: D) := by
  have hh := h.heap
  obtain ⟨A, B, rfl⟩ := List.append_of_mem hp
  have hlinked := h.linked
  have hnd := hlinked.nodup
  have hpA : p ∉ A := fun hA => (List.nodup_append.1 hnd).2.2 p hA p (by simp) rfl
  have herase : (A ++ p :: B).erase p = A ++ B := by
    rw [List.erase_append_right _ hpA, List.erase_cons_head]
  have hmem : ∀ q, q ∈ A ++ B ↔ q ∈ A ++ p :: B ∧ q ≠ p := fun q => by
    rw [← herase, hnd.mem_erase_iff, and_comm]
  have hlive : ∀ k, LiveQueue (A ++ B) k → LiveQueue (A ++ p :: B) k := by
    rintro (_ | _ | _ | _ | q) hk
    on_goal 5 => exact ((hmem q).1 hk).1
    all_goals trivial
  have howns : ∀ t, OwnsStack s (A ++ B) t → OwnsStack s (A ++ p :: B) t := fun t ht =>
    ⟨((hmem _).1 ht.1).1, ht.2⟩
  have hblock : (p, sizeofProcess) ∈ s.heap.blocks := hh.proc p hp hi
  have hQ := h.queues
  rw [herase, unlinkProcess_eq]
  constructor
  · exact hlinked.unlink
  · -- the head of the list
    have hfirst := h.first
    have hnext := hlinked.next_of_eq_append
    cases A with
    | nil => simpa [hfirst] using hnext
    | cons a A =>
      have hap : a ≠ p := fun h => hpA (h ▸ List.mem_cons_self)
      simp [hfirst, hap]
  · exact (hmem _).2 ⟨h.idle_mem, hi.symm⟩
  · exact
      { linked := fun k hk => hQ.linked k (hlive k hk)
        headNext := fun k hk => hQ.headNext k (hlive k hk)
        headPrev := fun k hk => hQ.headPrev k (hlive k hk)
        size := fun k hk => hQ.size k (hlive k hk)
        q_iff := fun t ht => hQ.q_iff t ((hmem _).1 ht).1
        live := fun k t ht => by
          have hne := hL k t ht
          refine ⟨?_, (hmem _).2 ⟨(hQ.live k t ht).2, hne⟩⟩
          rcases k with _ | _ | _ | _ | q
          on_goal 5 =>
            obtain rfl := h.waiters q t ht
            exact (hmem _).2 ⟨(hQ.live _ t ht).2, hne⟩
          all_goals trivial }
  · exact h.queued
  · exact h.waiters
  · exact fun t ht => h.owner t ((hmem _).1 ht).1
  · exact (hmem _).2 ⟨h.current_mem, hcur⟩
  · exact h.current_owner
  · exact h.current_used
  · exact fun t ht => h.stacked t ((hmem _).1 ht).1
  · exact h.esp0
  · exact h.currentProcess
  · exact h.cr3
  · exact
      { hh with
        proc := fun q hq => hh.proc q ((hmem q).1 hq).1
        stack := fun t ht => hh.stack t (howns t ht)
        stack_inj := fun t t' ht ht' => hh.stack_inj t t' (howns t ht) (howns t' ht')
        held := List.forall_mem_cons.2 ⟨hblock, hh.held⟩
        held_ne_proc := List.forall_mem_cons.2 ⟨fun q hq => ((hmem q).1 hq).2,
          fun d hd q hq => hh.held_ne_proc d hd q ((hmem q).1 hq).1⟩
        held_ne_stack := List.forall_mem_cons.2 ⟨fun t ht =>
          (hh.proc_ne_stack (howns t ht) hp).symm,
          fun d hd t ht => hh.held_ne_stack d hd t (howns t ht)⟩
        held_nodup := List.nodup_cons.2 ⟨fun hd => by
          obtain ⟨d, hd, heq⟩ := List.mem_map.1 hd
          exact hh.held_ne_proc d hd p hp heq.symm, hh.held_nodup⟩ }

/-- `heap_free` of a process that has been unlinked. -/
lemma SameLinks.freeProcess {p : ℕ} (hp : ∀ q ∈ P, q ≠ p) (g : Garbage) (s : Kernel) :
    SameLinks P (heapPut p s) (freeProcess p g s) := by
  have hthread : ∀ t : ThreadRef, t.process ∈ P → t.process ≠ p := fun t ht => hp _ ht
  refine ⟨fun q hq => ?_, fun t ht => ?_, ⟨fun t ht => ?_, ?_⟩, rfl, rfl, rfl, rfl, rfl, rfl, rfl⟩
  · simp [Gummy.freeProcess, heapPut, hp q hq]
  · simp [Gummy.freeProcess, heapPut, hthread t ht]
  · simp [Gummy.freeProcess, heapPut, hthread t ht]
  · rintro (_ | _ | _ | _ | q) hq
    on_goal 5 => have := hp q hq
    all_goals simp_all [Gummy.freeProcess, heapPut]

/-- The part of `sched_destroy_process` that removes page tables and the directory. -/
lemma destroyDirectory_spec (p : ℕ) (s : Kernel) :
    ∃ m : Machine, m.cr3 = s.mach.cr3 ∧
      (if (s.proc p).cr3 ≠ 0 then
        { s with mach := { vmmDestroy (s.proc p).cr3 s.mach with
          pmm := pmmFreePage (vmmDestroy (s.proc p).cr3 s.mach).pmm (s.proc p).cr3 } }
        else { s with mach := vmmDestroy (s.proc p).cr3 s.mach }) = { s with mach := m } := by
  by_cases h0 : (s.proc p).cr3 ≠ 0
  · exact ⟨{ vmmDestroy (s.proc p).cr3 s.mach with
      pmm := pmmFreePage (vmmDestroy (s.proc p).cr3 s.mach).pmm (s.proc p).cr3 },
      vmmDestroy_cr3 s.mach _, if_pos h0⟩
  · exact ⟨vmmDestroy (s.proc p).cr3 s.mach, vmmDestroy_cr3 s.mach _, if_neg h0⟩

/-- What destroying the process `p` leaves alone: other threads and, but for their links
and fathers, the other processes of the list `P`. -/
structure Destroyed (P : List ℕ) (s s' : Kernel) (p : ℕ) : Prop where
  thread : ∀ t, t.process ≠ p → s'.thread t = s.thread t
  proc : ∀ q ∈ P, q ≠ p → ∃ next prev, s'.proc q = { s.proc q with
    next, prev, dad := if (s.proc q).dad = some p then (s.proc p).dad else (s.proc q).dad }
  globals : SameGlobals s s'
  accepted : s'.accepted = s.accepted
  delivered : s'.delivered = s.delivered

/-- A list of processes is short enough to be walked. -/
lemma Inv.processes_eq (h : Inv s P L D) : s.processes = P := by
  have hlt : ∀ p ∈ P, p < 2 ^ 32 := by
    intro p hp
    by_cases hi : p = idleProcess
    · simp [hi, idleProcess]
    · have hblock := (h.heap.range _ (h.heap.proc p hp hi)).2.2
      have hstop := h.heap.stop_le
      dsimp only at hblock
      omega
  have hlen : P.length ≤ 2 ^ 32 := by
    rw [← List.toFinset_card_of_nodup h.linked.nodup]
    refine (Finset.card_le_card (t := Finset.range (2 ^ 32)) fun p hp => ?_).trans_eq
      (Finset.card_range _)
    exact Finset.mem_range.2 (hlt p (List.mem_toFinset.1 hp))
  rw [Kernel.processes, h.first]
  exact h.linked.chain_eq hlen

/-- `sched_destroy_process` of a listed process: refused for the active address space, it
takes the process and its threads out otherwise. -/
theorem Inv.schedDestroyProcess (h : Inv s P L D) {p : ℕ} (hp : p ∈ P) (hi : p ≠ idleProcess)
    (g : Garbage) :
    (s.mach.cr3 = (s.proc p).cr3 ∧ schedDestroyProcess p g s = s) ∨
      (s.currentThread.process ≠ p ∧
        Inv (schedDestroyProcess p g s) (P.erase p) (dropProcess L p) D ∧
        Destroyed P s (schedDestroyProcess p g s) p) := by
  unfold Gummy.schedDestroyProcess
  by_cases hcr3 : s.mach.cr3 = (s.proc p).cr3
  · exact Or.inl ⟨hcr3, if_pos hcr3⟩
  have hcur : s.currentThread.process ≠ p := by
    rintro rfl
    exact hcr3 h.cr3
  refine Or.inr ⟨hcur, ?_⟩
  rw [if_neg hcr3]
  dsimp only
  -- reparenting
  obtain ⟨s1, hs1⟩ : ∃ s1, s1 = reparent p s := ⟨_, rfl⟩
  have hs1' := hs1
  rw [reparent, h.processes_eq, foldl_reparent] at hs1'
  have hinv1 : Inv s1 P L D := by
    refine h.congr ⟨fun q _ => ?_, fun t _ => ?_, ?_, ?_, ?_, ?_, ?_, ?_, ?_, ?_⟩
    on_goal 1 =>
      rw [hs1']
      dsimp only
      split_ifs <;> rfl
    on_goal 2 => rw [hs1']; exact .refl _ _
    all_goals rw [hs1']
  rw [← hs1]
  -- the threads
  have hcur1 : s1.currentThread.process ≠ p := by rwa [hs1']
  obtain ⟨hinv2, hret⟩ := hinv1.destroySlots hp hcur1 (List.finRange threadPerProcess)
  rw [dropSlots_all] at hinv2
  generalize (List.finRange threadPerProcess).foldl (fun s i => Gummy.schedDestroyThread ⟨p, i⟩ s)
    s1 = s2 at hinv2 hret ⊢
  -- the page tables
  obtain ⟨m, hm, hdir⟩ := destroyDirectory_spec p s2
  rw [hdir]
  have hinv3 := hinv2.congr (SameLinks.withMach P _ hm)
  -- the list
  have hinv4 := hinv3.unlinkProcess hp hi (hret.globals.currentThread ▸ hcur1)
    fun q t ht => (mem_dropProcess.1 ht).2
  have hne : ∀ q ∈ P.erase p, q ≠ p := fun q hq => (h.linked.nodup.mem_erase_iff.1 hq).1
  refine ⟨(hinv4.release rfl).congr (SameLinks.freeProcess hne g _), ?_⟩
  have hthread : ∀ t, t.process ≠ p → s2.thread t = s.thread t := by
    intro t ht
    rw [hret.thread t ht, hs1']
  have hproc : ∀ q ∈ P, q ≠ p → s2.proc q = { s.proc q with
      dad := if (s.proc q).dad = some p then (s.proc p).dad else (s.proc q).dad } := by
    intro q hq hqp
    rw [hret.proc q hqp, hs1']
    by_cases hdad : (s.proc q).dad = some p
    · simp only [hq, hdad, and_self, if_true]
    · simp only [hdad, and_false, if_false]
  rw [unlinkProcess_eq]
  refine ⟨fun t ht => ?_, fun q hq hqp => ?_, ?_, ?_, ?_⟩
  · exact (if_neg ht).trans (hthread t ht)
  · refine ⟨Linked.setAt (fun q => (s2.proc q).next) (s2.proc p).prev (s2.proc p).next q,
      Linked.setAt (fun q => (s2.proc q).prev) (s2.proc p).next (s2.proc p).prev q,
      (Function.update_of_ne hqp _ _).trans ?_⟩
    dsimp only [heapPut]
    simp only [hproc q hq hqp]
  · have hglobals : SameGlobals s s1 := by
      rw [hs1']
      exact {}
    have hret := hglobals.trans hret.globals
    exact { hret with }
  · exact hret.accepted.trans (hs1' ▸ rfl)
  · exact hret.delivered.trans (hs1' ▸ rfl)

end Gummy
