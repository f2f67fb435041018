import Mathlib.Data.Fintype.Card
import Gummy.Kernel.Creation
import Gummy.Kernel.Simulation
import Gummy.Vmm.Walk

/-!
The thread slots of one process.

A slot is taken in three places: `num_threads` counts the threads, `state` is `THREAD_FREE`
once the thread has been destroyed, and `process` is set when the slot is filled.  Creation
looks for a slot whose `process` is `NULL`, but destruction leaves `process` as it is.
-/

namespace Gummy

open Transition (Reachable)

variable {p : ℕ} {s : Kernel} {loc : ℕ} {c : HeapChoice} {slot : Fin threadPerProcess}

/-! ### Creation -/

/-- Both allocations of `sched_create_thread` succeed. -/
def MemorySuffices (p : ℕ) (c : HeapChoice) (s : Kernel) : Prop :=
  ∀ slot, freeSlot p s = some slot → ∃ stack0 s',
    heapGet kernelStackSize c (clearThread ⟨p, slot⟩ s) = (some stack0, s') ∧
      (allocUserStack p (userStackEnd slot - userStackSize) (userStackEnd slot) s').1 = true

/-- A slot of `p` has been filled. -/
structure Filled (s s' : Kernel) (p : ℕ) (slot : Fin threadPerProcess) : Prop where
  process : (s'.thread ⟨p, slot⟩).process = some p
  state : (s'.thread ⟨p, slot⟩).state = .running
  other : ∀ t, t ≠ ⟨p, slot⟩ → s'.thread t = s.thread t
  numThreads : (s'.proc p).numThreads = ((s.proc p).numThreads + 1) % 2 ^ 8
  current : s'.currentThread = s.currentThread

lemma freeSlot_eq_none_iff : freeSlot p s = none ↔ ∀ i, (s.thread ⟨p, i⟩).process ≠ none := by
  simp [freeSlot, List.find?_eq_none]

lemma schedCreateThread_full (h : threadPerProcess ≤ (s.proc p).numThreads) :
    schedCreateThread loc p c s = (none, s) := by
  unfold schedCreateThread
  split_ifs
  · rfl
  · rfl

lemma schedCreateThread_stuck (h : freeSlot p s = none) :
    schedCreateThread loc p c s = (none, s) := by
  unfold schedCreateThread
  rw [h]
  split_ifs <;> rfl

/-- With memory, a slot that was never used is filled. -/
lemma schedCreateThread_filled (hloc : loc ≠ 0) (hnum : (s.proc p).numThreads < threadPerProcess)
    (hslot : freeSlot p s = some slot) (hmem : MemorySuffices p c s) :
    ∃ s', schedCreateThread loc p c s = (some ⟨p, slot⟩, s') ∧ Filled s s' p slot := by
  obtain ⟨stack0, s₁, hget, halloc⟩ := hmem slot hslot
  obtain ⟨m, k, -, -, hnone | ⟨-, hsome⟩⟩ :=
    heapGet_spec kernelStackSize c (clearThread ⟨p, slot⟩ s)
  · rw [hget] at hnone
    cases hnone
  rw [hget] at hsome
  obtain ⟨-, rfl⟩ := Prod.mk.inj hsome
  obtain ⟨b, m', hstack, -⟩ := allocUserStack_spec p (userStackEnd slot - userStackSize)
    (userStackEnd slot) ((clearThread ⟨p, slot⟩ s).withHeap m
      { k with blocks := (c.addr, kernelStackSize) :: k.blocks })
  rw [hstack] at halloc
  obtain rfl : b = true := halloc
  unfold schedCreateThread
  rw [if_neg hloc, if_neg (not_le.2 hnum), hslot]
  dsimp only
  rw [hget]
  dsimp only
  rw [hstack]
  have hself : ∀ (k : Kernel) (f : Thread → Thread) (g : Process → Process),
      ((k.setThread ⟨p, slot⟩ f).setProc p g).thread ⟨p, slot⟩ = f (k.thread ⟨p, slot⟩) :=
    fun _ _ _ => Function.update_self ..
  refine ⟨_, rfl, ?_, ?_, fun t ht => ?_, ?_, rfl⟩
  · rw [hself]
    rfl
  · rw [hself]
    simp [fillThread, clearThread, Kernel.withHeap, Thread.zero]
  · exact (Function.update_of_ne ht _ _).trans (Function.update_of_ne ht _ _)
  · rw [Kernel.setProc_self]
    rfl

/-! ### Destruction -/

/-- The thread of a slot is destroyed, if there is one. -/
structure Emptied (s s' : Kernel) (p : ℕ) (slot : Fin threadPerProcess) : Prop where
  process : (s'.thread ⟨p, slot⟩).process = (s.thread ⟨p, slot⟩).process
  other : ∀ t, t ≠ ⟨p, slot⟩ → s'.thread t = s.thread t
  state : (s'.thread ⟨p, slot⟩).process ≠ none → (s'.thread ⟨p, slot⟩).state = .free
  numThreads : (s'.proc p).numThreads =
    if (s.thread ⟨p, slot⟩).process ≠ none ∧ (s.thread ⟨p, slot⟩).state ≠ .free then
      ((s.proc p).numThreads + 2 ^ 8 - 1) % 2 ^ 8
    else (s.proc p).numThreads
  current : s'.currentThread = s.currentThread

lemma schedDestroyThread_emptied (howner : ∀ q, (s.thread ⟨p, slot⟩).process = some q → q = p)
    (hcur : (⟨p, slot⟩ : ThreadRef) ≠ s.currentThread) :
    Emptied s (schedDestroyThread ⟨p, slot⟩ s) p slot := by
  unfold schedDestroyThread
  cases hproc : (s.thread ⟨p, slot⟩).process with
  | none => exact ⟨rfl, fun _ _ => rfl, fun h => absurd hproc h, by simp [hproc], rfl⟩
  | some q =>
    obtain rfl := howner q hproc
    dsimp only
    by_cases hfree : (s.thread ⟨q, slot⟩).state = .free
    · rw [if_pos hfree]
      exact ⟨rfl, fun _ _ => rfl, fun _ => hfree, by simp [hfree], rfl⟩
    rw [if_neg hfree, if_neg hcur]
    have hstate : ∀ m : Kernel, m.thread = s.thread → m.proc = s.proc →
        m.currentThread = s.currentThread →
        Emptied s ((({ m with queues := queueRemove m.queues ⟨q, slot⟩ } : Kernel).setProc q
          fun p => { p with numThreads := (p.numThreads + 2 ^ 8 - 1) % 2 ^ 8 }).setThread
            ⟨q, slot⟩ ({ · with state := .free })) q slot := by
      intro m hthread hprocs hcurrent
      refine ⟨?_, fun t ht => ?_, fun _ => ?_, ?_, hcurrent⟩
      · rw [Kernel.setThread_self, ← hthread]
        rfl
      · rw [Kernel.setThread_of_ne _ _ ht, ← hthread]
        rfl
      · rw [Kernel.setThread_self]
      · rw [if_pos ⟨by simp [hproc], hfree⟩, ← hprocs]
        have hself : ∀ (k : Kernel) (f : Thread → Thread) (g : Process → Process),
            ((k.setProc q g).setThread ⟨q, slot⟩ f).proc q = g (k.proc q) :=
          fun _ _ _ => Function.update_self ..
        rw [hself]
    -- the stacks are given back only if there are any
    refine hstate _ ?_ ?_ ?_ <;> (split_ifs <;> rfl)

/-! ### Sequences of calls -/

/-- A process after a sequence of calls: the slots of the threads that were created and not
destroyed since, and how many were created in all. -/
structure SlotState where
  kernel : Kernel
  live : Finset (Fin threadPerProcess)
  created : ℕ

inductive SlotCall
  | create (loc : ℕ) (c : HeapChoice)
  | destroy (i : Fin threadPerProcess)

/-- Memory suffices for a creation, and the current thread is not destroyed. -/
def SlotCall.Ok (p : ℕ) (σ : SlotState) : SlotCall → Prop
  | .create loc c => loc ≠ 0 ∧ MemorySuffices p c σ.kernel
  | .destroy i => (⟨p, i⟩ : ThreadRef) ≠ σ.kernel.currentThread

def SlotCall.run (p : ℕ) (σ : SlotState) : SlotCall → SlotState
  | .create loc c =>
    match schedCreateThread loc p c σ.kernel with
    | (none, s) => { σ with kernel := s }
    | (some t, s) => ⟨s, insert t.slot σ.live, σ.created + 1⟩
  | .destroy i => ⟨schedDestroyThread ⟨p, i⟩ σ.kernel, σ.live.erase i, σ.created⟩

def SlotStep (p : ℕ) (σ : SlotState) (call : SlotCall) (σ' : SlotState) : Prop :=
  call.Ok p σ ∧ σ' = call.run p σ

/-- The slots that have ever been filled. -/
def usedSlots (p : ℕ) (s : Kernel) : Finset (Fin threadPerProcess) :=
  Finset.univ.filter fun i => (s.thread ⟨p, i⟩).process ≠ none

/-- The records of a process agree with the history of its threads. -/
structure SlotsAgree (p : ℕ) (σ : SlotState) : Prop where
  owner : ∀ i q, (σ.kernel.thread ⟨p, i⟩).process = some q → q = p
  live : ∀ i, i ∈ σ.live ↔ (σ.kernel.thread ⟨p, i⟩).process ≠ none ∧
    (σ.kernel.thread ⟨p, i⟩).state ≠ .free
  created : σ.created = (usedSlots p σ.kernel).card
  numThreads : (σ.kernel.proc p).numThreads = σ.live.card

namespace SlotsAgree

variable {σ : SlotState}

lemma mem_usedSlots {i : Fin threadPerProcess} :
    i ∈ usedSlots p s ↔ (s.thread ⟨p, i⟩).process ≠ none := by
  simp [usedSlots]

lemma live_subset (h : SlotsAgree p σ) : σ.live ⊆ usedSlots p σ.kernel := by
  intro i hi
  exact mem_usedSlots.2 ((h.live i).1 hi).1

lemma created_le (h : SlotsAgree p σ) : σ.created ≤ threadPerProcess := by
  rw [h.created]
  exact (Finset.card_le_univ _).trans_eq (Fintype.card_fin _)

lemma live_le (h : SlotsAgree p σ) : σ.live.card ≤ σ.created := by
  rw [h.created]
  exact Finset.card_le_card h.live_subset

/-- A slot is left exactly while fewer threads have been created than there are slots. -/
lemma freeSlot_eq_none_iff (h : SlotsAgree p σ) :
    freeSlot p σ.kernel = none ↔ σ.created = threadPerProcess := by
  have hall : (usedSlots p σ.kernel).card = Fintype.card (Fin threadPerProcess) ↔
      ∀ i, (σ.kernel.thread ⟨p, i⟩).process ≠ none := by
    rw [Finset.card_eq_iff_eq_univ, Finset.eq_univ_iff_forall]
    simp only [mem_usedSlots]
  rw [Gummy.freeSlot_eq_none_iff, h.created, ← hall, Fintype.card_fin]

lemma filled {s' : Kernel} (h : SlotsAgree p σ) (hslot : freeSlot p σ.kernel = some slot)
    (hf : Filled σ.kernel s' p slot) (hnum : (σ.kernel.proc p).numThreads < threadPerProcess) :
    SlotsAgree p ⟨s', insert slot σ.live, σ.created + 1⟩ := by
  have hfree := freeSlot_some hslot
  have hne : ∀ i, i ≠ slot → s'.thread ⟨p, i⟩ = σ.kernel.thread ⟨p, i⟩ := by
    intro i hi
    refine hf.other _ fun heq => hi ?_
    exact congrArg ThreadRef.slot heq
  have hnotLive : slot ∉ σ.live := fun hl => ((h.live slot).1 hl).1 hfree
  have hnotUsed : slot ∉ usedSlots p σ.kernel := fun hu => mem_usedSlots.1 hu hfree
  have hused : usedSlots p s' = insert slot (usedSlots p σ.kernel) := by
    ext i
    rw [Finset.mem_insert, mem_usedSlots, mem_usedSlots]
    by_cases hi : i = slot
    · simp [hi, hf.process]
    · simp [hi, hne i hi]
  refine ⟨fun i q hq => ?_, fun i => ?_, ?_, ?_⟩
  · by_cases hi : i = slot
    · rw [hi, hf.process] at hq
      exact (Option.some.inj hq).symm
    · rw [hne i hi] at hq
      exact h.owner i q hq
  · by_cases hi : i = slot
    · simp [hi, hf.process, hf.state]
    · rw [Finset.mem_insert, hne i hi, ← h.live i]
      simp [hi]
  · rw [hused, Finset.card_insert_of_notMem hnotUsed, h.created]
  · rw [hf.numThreads, Finset.card_insert_of_notMem hnotLive, h.numThreads, Nat.mod_eq_of_lt]
    rw [h.numThreads] at hnum
    simp only [threadPerProcess] at hnum
    omega

lemma emptied {s' : Kernel} (h : SlotsAgree p σ) (he : Emptied σ.kernel s' p slot) :
    SlotsAgree p ⟨s', σ.live.erase slot, σ.created⟩ := by
  have hne : ∀ i, i ≠ slot → s'.thread ⟨p, i⟩ = σ.kernel.thread ⟨p, i⟩ := by
    intro i hi
    refine he.other _ fun heq => hi ?_
    exact congrArg ThreadRef.slot heq
  have hproc : ∀ i, (s'.thread ⟨p, i⟩).process = (σ.kernel.thread ⟨p, i⟩).process := by
    intro i
    by_cases hi : i = slot
    · rw [hi, he.process]
    · rw [hne i hi]
  refine ⟨fun i q hq => h.owner i q (hproc i ▸ hq), fun i => ?_, ?_, ?_⟩
  · rw [Finset.mem_erase]
    by_cases hi : i = slot
    · simp only [hi, ne_eq, not_true_eq_false, false_and, false_iff, not_and, not_not]
      exact he.state
    · rw [hne i hi, ← h.live i]
      simp [hi]
  · rw [h.created, usedSlots, usedSlots]
    simp only [hproc]
  · rw [he.numThreads, h.numThreads]
    by_cases hl : slot ∈ σ.live
    · have hpos := Finset.card_pos.2 ⟨slot, hl⟩
      have hle := h.live_le.trans h.created_le
      simp only [threadPerProcess] at hle
      rw [if_pos ((h.live slot).1 hl), Finset.card_erase_of_mem hl]
      omega
    · rw [if_neg (fun hu => hl ((h.live slot).2 hu)), Finset.erase_eq_of_notMem hl]

/-- Every call keeps the records. -/
lemma step {call : SlotCall} {σ' : SlotState} (h : SlotsAgree p σ) (hs : SlotStep p σ call σ') :
    SlotsAgree p σ' := by
  obtain ⟨hok, rfl⟩ := hs
  cases call with
  | create loc c =>
    obtain ⟨hloc, hmem⟩ := hok
    rw [SlotCall.run]
    by_cases hnum : (σ.kernel.proc p).numThreads < threadPerProcess
    · cases hslot : freeSlot p σ.kernel with
      | none =>
        rw [schedCreateThread_stuck hslot]
        exact h
      | some slot =>
        obtain ⟨s', hcreate, hf⟩ := schedCreateThread_filled hloc hnum hslot hmem
        rw [hcreate]
        exact h.filled hslot hf hnum
    · rw [schedCreateThread_full (not_lt.1 hnum)]
      exact h
  | destroy i => exact h.emptied (schedDestroyThread_emptied (h.owner i) hok)

end SlotsAgree

/-- **When thread slots can be reused.**  After any calls, `num_threads` is the number of
threads that were created and not destroyed; but a creation succeeds exactly when that number
is below the limit only as long as a slot is left that no thread has ever held, or no thread
has been destroyed. -/
theorem slots_reusable_iff {σ : SlotState} (h : Reachable (SlotsAgree p) (SlotStep p) σ) :
    (σ.kernel.proc p).numThreads = σ.live.card ∧
      ∀ loc c, (SlotCall.create loc c).Ok p σ →
        (((schedCreateThread loc p c σ.kernel).1.isSome ↔
            (σ.kernel.proc p).numThreads < threadPerProcess) ↔
          σ.created < threadPerProcess ∨ σ.live.card = σ.created) := by
  have hagree : SlotsAgree p σ := h.invariant (fun _ h => h) fun _ _ _ h hs => h.step hs
  refine ⟨hagree.numThreads, ?_⟩
  rintro loc c ⟨hloc, hmem⟩
  have hle := hagree.live_le
  have hmax := hagree.created_le
  have hnum := hagree.numThreads
  by_cases hfull : threadPerProcess ≤ (σ.kernel.proc p).numThreads
  · rw [schedCreateThread_full hfull]
    have hall : σ.live.card = σ.created := by omega
    simp [hall, not_lt.2 hfull]
  · cases hslot : freeSlot p σ.kernel with
    | none =>
      have hcreated := hagree.freeSlot_eq_none_iff.1 hslot
      rw [schedCreateThread_stuck hslot]
      have hlt : σ.live.card ≠ threadPerProcess := by omega
      simp [hlt, not_le.1 hfull, hcreated]
    | some slot =>
      obtain ⟨s', hcreate, -⟩ := schedCreateThread_filled hloc (not_le.1 hfull) hslot hmem
      have hcreated : σ.created ≠ threadPerProcess := by
        intro heq
        rw [hagree.freeSlot_eq_none_iff.2 heq] at hslot
        cases hslot
      rw [hcreate]
      have hlt : σ.created < threadPerProcess := lt_of_le_of_ne hmax hcreated
      simp [hlt, not_le.1 hfull]

/-! ### Slots of the idle process -/

lemma memorySuffices_idle (hpages : c.pages = 0) (hfits : s.heap.Fits c.addr kernelStackSize) :
    MemorySuffices idleProcess c s := by
  intro slot _
  have hgrow : heapGrow c.pages (clearThread ⟨idleProcess, slot⟩ s) =
      clearThread ⟨idleProcess, slot⟩ s := by
    unfold heapGrow
    exact if_pos (Or.inl hpages)
  have hget : heapGet kernelStackSize c (clearThread ⟨idleProcess, slot⟩ s) =
      (some c.addr, { clearThread ⟨idleProcess, slot⟩ s with heap := { s.heap with
        blocks := (c.addr, kernelStackSize) :: s.heap.blocks } }) := by
    unfold heapGet
    rw [hgrow]
    exact if_pos hfits
  refine ⟨c.addr, _, hget, ?_⟩
  unfold allocUserStack
  rw [if_pos rfl]

/-- The idle process with the thread that the kernel was started in. -/
def idleSlots : SlotState := ⟨schedInit 100 (bootKernel bootMachine), {idleThread.slot}, 1⟩

lemma slotsAgree_idleSlots : SlotsAgree idleProcess idleSlots := by
  have hthread : ∀ i, idleSlots.kernel.thread ⟨idleProcess, i⟩ =
      if i = 0 then { Thread.zero with process := some idleProcess } else Thread.zero := by
    intro i
    rw [idleSlots, schedInit_thread, Function.update_apply]
    simp [idleThread, bootKernel]
  refine ⟨fun i q hq => ?_, fun i => ?_, by decide, by decide⟩
  · rw [hthread] at hq
    split_ifs at hq
    · exact (Option.some.inj hq).symm
    · cases hq
  · rw [hthread]
    split_ifs with hi <;> simp [idleSlots, hi, Thread.zero]

/-- A creation whose kernel stack is the page `k` of the heap. -/
def stackCall (k : ℕ) : SlotCall := .create 0xC0010000 ⟨0, heapBase + k * pageSize⟩

/-- The idle process after `n` creations. -/
def idleFilled (n : ℕ) : SlotState :=
  ((List.range n).map stackCall).foldl (SlotCall.run idleProcess) idleSlots

lemma reachable_idleFilled {n : ℕ} (hn : n ≤ 7) :
    Reachable (SlotsAgree idleProcess) (SlotStep idleProcess) (idleFilled n) := by
  have hfits : ∀ n < 7, (idleFilled n).kernel.heap.Fits (heapBase + n * pageSize)
      kernelStackSize := by decide
  induction n with
  | zero => exact .start slotsAgree_idleSlots
  | succ n ih =>
    have hstep : idleFilled (n + 1) = (stackCall n).run idleProcess (idleFilled n) := by
      rw [idleFilled, List.range_succ, List.map_append, List.foldl_append]
      rfl
    rw [hstep]
    exact .next (stackCall n) (ih (by omega))
      ⟨⟨by decide, memorySuffices_idle rfl (hfits n hn)⟩, rfl⟩

/-- All slots have been used, and one thread has been destroyed. -/
def idleEmptied : SlotState := (SlotCall.destroy ⟨1, by decide⟩).run idleProcess (idleFilled 7)

lemma reachable_idleEmptied :
    Reachable (SlotsAgree idleProcess) (SlotStep idleProcess) idleEmptied := by
  have hcurrent : (⟨idleProcess, 1⟩ : ThreadRef) ≠ (idleFilled 7).kernel.currentThread := by decide
  exact .next (.destroy 1) (reachable_idleFilled le_rfl) ⟨hcurrent, rfl⟩

theorem slots_reusable_iff_idle :
    (idleEmptied.kernel.proc idleProcess).numThreads = idleEmptied.live.card ∧
      (((schedCreateThread 0xC0010000 idleProcess ⟨0, heapBase + 7 * pageSize⟩
          idleEmptied.kernel).1.isSome ↔
        (idleEmptied.kernel.proc idleProcess).numThreads < threadPerProcess) ↔
      idleEmptied.created < threadPerProcess ∨ idleEmptied.live.card = idleEmptied.created) := by
  have hok : (stackCall 7).Ok idleProcess idleEmptied :=
    ⟨by decide, memorySuffices_idle rfl (by decide)⟩
  obtain ⟨hnum, hcreate⟩ := slots_reusable_iff reachable_idleEmptied
  exact ⟨hnum, hcreate _ _ hok⟩

/-- One of eight threads is destroyed: there is memory, the count is seven, and still no thread
can be created. -/
theorem slot_not_reused : ∃ σ, Reachable (SlotsAgree idleProcess) (SlotStep idleProcess) σ ∧
    (SlotCall.create 0xC0010000 ⟨0, heapBase + 7 * pageSize⟩).Ok idleProcess σ ∧
    (σ.kernel.proc idleProcess).numThreads < threadPerProcess ∧
    (schedCreateThread 0xC0010000 idleProcess ⟨0, heapBase + 7 * pageSize⟩ σ.kernel).1 = none := by
  have hfull : freeSlot idleProcess idleEmptied.kernel = none := by decide
  refine ⟨idleEmptied, reachable_idleEmptied, ⟨by decide, memorySuffices_idle rfl (by decide)⟩,
    by decide, ?_⟩
  rw [schedCreateThread_stuck hfull]

end Gummy
