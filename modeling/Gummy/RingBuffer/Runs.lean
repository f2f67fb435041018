import Gummy.Lib.Transition
import Gummy.RingBuffer

/-!
Runs of ring buffer operations.

A buffer is set up by `ring_buffer_init` over storage that may hold anything, and
`ring_buffer_push`, `ring_buffer_pop` and `ring_buffer_peek` follow in any order.
The list that the buffer stands for is read off its fields; the operations do to it
what those of a bounded queue do.
-/

namespace Gummy

open Transition (Reachable)

variable {storage : ByteMem} {elemSize capacity : ℕ} {r : RingBuffer}

/-! ### The bounded queue -/

/-- A push into a queue of at most `capacity` elements: whether it succeeds, and the queue. -/
def fifoPush {α : Type*} (capacity : ℕ) (l : List α) (x : α) : Bool × List α :=
  if l.length < capacity then (true, l ++ [x]) else (false, l)

def fifoPeek {α : Type*} (l : List α) : Option α := l.head?

def fifoPop {α : Type*} (l : List α) : Option α × List α := (l.head?, l.tail)

/-- The elements of a buffer, oldest first. -/
def RingBuffer.toList (r : RingBuffer) : List (List UInt8) :=
  (List.range r.count).map fun i => r.slot ((r.head + i) % r.capacity)

/-! ### Operations -/

inductive RingOp
  | push (elem : ByteMem)
  | pop
  | peek

def RingOp.apply (r : RingBuffer) : RingOp → RingBuffer
  | push elem => (ringBufferPush r elem).2
  | pop => (ringBufferPop r).2
  | peek => r

/-- The buffers that `ring_buffer_init` and the operations after it lead to. -/
def RingReachable (storage : ByteMem) (elemSize capacity : ℕ) (r : RingBuffer) : Prop :=
  Reachable (· = ringBufferInit storage elemSize capacity) (fun r op r' => r' = RingOp.apply r op) r

namespace RingBuffer.Holds

variable {l : List (List UInt8)}

lemma toList_eq (h : r.Holds l) : r.toList = l := by
  refine List.ext_getElem (by simp [toList, h.count]) fun i hi _ => ?_
  rw [← h.slot i (by simpa [toList, h.count] using hi)]
  simp [toList]

/-- The slot of a full buffer's element, or of the next push, lies in the storage. -/
lemma slot_le {i : ℕ} (hi : i < r.capacity) :
    i * r.elemSize + r.elemSize ≤ r.elemSize * r.capacity := by
  rw [← Nat.succ_mul, Nat.mul_comm r.elemSize]
  exact Nat.mul_le_mul_right _ hi

lemma head_lt (h : r.Holds l) (hc : 0 < r.capacity) : r.head < r.capacity := by
  rw [← h.head]
  exact Nat.mod_lt _ hc

lemma tail_lt (h : r.Holds l) (hc : 0 < r.capacity) : r.tail < r.capacity := by
  rw [h.tail]
  exact Nat.mod_lt _ hc

/-- The slot that the next push writes is none of those that hold an element. -/
lemma tail_ne (h : r.Holds l) (hl : l.length < r.capacity) {i : ℕ} (hi : i < l.length) :
    (r.head + i) % r.capacity ≠ r.tail := by
  intro heq
  rw [h.tail, h.count] at heq
  have hmod : i ≡ l.length [MOD r.capacity] := Nat.ModEq.add_left_cancel' r.head heq
  exact hi.ne (hmod.eq_of_lt_of_lt (by omega) hl)

lemma push_spec (h : r.Holds l) (elem : ByteMem) :
    ((ringBufferPush r elem).1 = 0 ↔
        (fifoPush r.capacity l (elem.bytes 0 r.elemSize)).1 = true) ∧
      (ringBufferPush r elem).2.Holds (fifoPush r.capacity l (elem.bytes 0 r.elemSize)).2 ∧
      (ringBufferPush r elem).2.elemSize = r.elemSize ∧
      (ringBufferPush r elem).2.capacity = r.capacity := by
  by_cases hl : l.length < r.capacity
  · obtain ⟨r', hpush, hr', hsize, hcap⟩ := h.push hl elem
    rw [hpush, fifoPush, if_pos hl]
    exact ⟨by simp, hr', hsize, hcap⟩
  · have hfull : l.length = r.capacity := le_antisymm h.le (not_lt.1 hl)
    rw [h.push_full hfull, fifoPush, if_neg hl]
    exact ⟨by simp, h, rfl, rfl⟩

lemma pop_spec (h : r.Holds l) :
    (ringBufferPop r).1 = (fifoPop l).1 ∧ (ringBufferPop r).2.Holds (fifoPop l).2 ∧
      (ringBufferPop r).2.elemSize = r.elemSize ∧ (ringBufferPop r).2.capacity = r.capacity := by
  cases l with
  | nil =>
    rw [h.pop_nil]
    exact ⟨rfl, h, rfl, rfl⟩
  | cons x l =>
    obtain ⟨r', hpop, hr', hsize, hcap⟩ := h.pop_cons
    rw [hpop]
    exact ⟨rfl, hr', hsize, hcap⟩

lemma peek_spec (h : r.Holds l) : ringBufferPeek r = fifoPeek l := by
  have hpop := h.pop_spec.1
  rw [ringBufferPop] at hpop
  rw [fifoPeek, ← show (fifoPop l).1 = l.head? from rfl, ← hpop]
  cases ringBufferPeek r <;> rfl

end RingBuffer.Holds

/-- One operation. -/
lemma RingOp.holds {l : List (List UInt8)} (h : r.Holds l) (op : RingOp) :
    (∃ l', (op.apply r).Holds l') ∧ (op.apply r).elemSize = r.elemSize ∧
      (op.apply r).capacity = r.capacity := by
  cases op with
  | push elem => exact ⟨⟨_, (h.push_spec elem).2.1⟩, (h.push_spec elem).2.2⟩
  | pop => exact ⟨⟨_, h.pop_spec.2.1⟩, h.pop_spec.2.2⟩
  | peek => exact ⟨⟨l, h⟩, rfl, rfl⟩

lemma RingReachable.holds (h : RingReachable storage elemSize capacity r) :
    (∃ l, r.Holds l) ∧ r.elemSize = elemSize ∧ r.capacity = capacity := by
  refine Reachable.invariant
    (P := fun r => (∃ l, r.Holds l) ∧ r.elemSize = elemSize ∧ r.capacity = capacity) ?_ ?_ h
  · rintro r rfl
    exact ⟨⟨[], .init storage elemSize capacity⟩, rfl, rfl⟩
  · rintro r op r' ⟨⟨l, hl⟩, hsize, hcap⟩ rfl
    obtain ⟨hl', hsize', hcap'⟩ := op.holds hl
    exact ⟨hl', hsize'.trans hsize, hcap'.trans hcap⟩

/-- After any operations the buffer stands for a list of at most `capacity` elements, and
each operation does to it what the one of a bounded queue does; one that fails changes
nothing.  Where an operation divides by the capacity, the capacity is positive; the slot
that it reads or writes lies in the storage, a push writes nothing outside its slot, and
no element that is still to be read lies there.  Where the storage has at most `2 ^ 32`
bytes, no number computed exceeds a word. -/
theorem ring_buffer_refines_fifo (h : RingReachable storage elemSize capacity r) :
    r.toList.length ≤ capacity ∧
    (∀ elem,
      ((ringBufferPush r elem).1 = 0 ↔ r.toList.length < capacity) ∧
      ((ringBufferPush r elem).1 ≠ 0 → (ringBufferPush r elem).2 = r) ∧
      (ringBufferPush r elem).2.toList =
        (fifoPush capacity r.toList (elem.bytes 0 elemSize)).2) ∧
    (ringBufferPeek r = fifoPeek r.toList ∧ (ringBufferPeek r = none ↔ r.toList = [])) ∧
    ((ringBufferPop r).1 = (fifoPop r.toList).1 ∧
      ((ringBufferPop r).1 = none → (ringBufferPop r).2 = r) ∧
      (ringBufferPop r).2.toList = (fifoPop r.toList).2) ∧
    (¬ ringBufferFull r → 0 < r.capacity ∧
      r.tail * elemSize + elemSize ≤ elemSize * capacity ∧
      (∀ elem x, x < r.tail * elemSize ∨ r.tail * elemSize + elemSize ≤ x →
        (ringBufferPush r elem).2.buf x = r.buf x) ∧
      ∀ i < r.toList.length,
        (r.head + i) % capacity * elemSize + elemSize ≤ r.tail * elemSize ∨
          r.tail * elemSize + elemSize ≤ (r.head + i) % capacity * elemSize) ∧
    (¬ ringBufferEmpty r → 0 < r.capacity ∧
      r.head * elemSize + elemSize ≤ elemSize * capacity) ∧
    (capacity < 2 ^ 32 → elemSize * capacity ≤ 2 ^ 32 →
      (¬ ringBufferFull r → r.tail + 1 < 2 ^ 32 ∧ r.count + 1 < 2 ^ 32 ∧
        r.tail * elemSize + elemSize ≤ 2 ^ 32) ∧
      (¬ ringBufferEmpty r → r.head + 1 < 2 ^ 32 ∧ r.head * elemSize + elemSize ≤ 2 ^ 32)) := by
  obtain ⟨⟨l, hl⟩, rfl, rfl⟩ := h.holds
  have hroom : ¬ ringBufferFull r ↔ l.length < r.capacity := by
    rw [hl.full_iff]
    exact ⟨fun hne => lt_of_le_of_ne hl.le hne, Nat.ne_of_lt⟩
  have hsome : ¬ ringBufferEmpty r ↔ 0 < l.length := by
    rw [hl.empty_iff, List.length_pos_iff]
  rw [hl.toList_eq, hroom, hsome]
  refine ⟨hl.le, fun elem => ?_, ⟨hl.peek_spec, ?_⟩, ⟨hl.pop_spec.1, fun hnone => ?_,
    hl.pop_spec.2.1.toList_eq⟩, fun hlt => ?_, fun hpos => ?_, fun hcap hstorage => ⟨fun hlt => ?_,
    fun hpos => ?_⟩⟩
  · obtain ⟨hstatus, hlist, -⟩ := hl.push_spec elem
    refine ⟨hstatus.trans ?_, fun hfail => ?_, hlist.toList_eq⟩
    · rw [fifoPush]
      split_ifs with hlt <;> simp [hlt]
    · have hfull : ringBufferFull r = true := by
        by_contra hfull
        rw [ringBufferPush, if_neg hfull] at hfail
        exact hfail rfl
      rw [ringBufferPush, if_pos hfull]
  · rw [hl.peek_spec, fifoPeek, List.head?_eq_none_iff]
  · have hnil : l = [] := by
      rw [hl.pop_spec.1] at hnone
      exact List.head?_eq_none_iff.1 hnone
    subst hnil
    rw [hl.pop_nil]
  · refine ⟨by omega, RingBuffer.Holds.slot_le (hl.tail_lt (by omega)), fun elem x hx => ?_,
      fun i hi => RingBuffer.Holds.slot_disjoint (hl.tail_ne hlt hi)⟩
    rw [ringBufferPush, if_neg (hroom.2 hlt)]
    exact ByteMem.store_of_disjoint _ (by rwa [ByteMem.length_bytes])
  · have hc : 0 < r.capacity := hpos.trans_le hl.le
    exact ⟨hc, RingBuffer.Holds.slot_le (hl.head_lt hc)⟩
  · have htail := hl.tail_lt (by omega)
    have hcount := hl.count
    exact ⟨by omega, by omega, (RingBuffer.Holds.slot_le htail).trans hstorage⟩
  · have hhead := hl.head_lt (hpos.trans_le hl.le)
    exact ⟨by omega, (RingBuffer.Holds.slot_le hhead).trans hstorage⟩

/-- A buffer with one slot after a push. -/
theorem ring_buffer_refines_fifo_full :
    let r := (ringBufferPush (ringBufferInit (fun _ => 0) 2 1) fun _ => 7).2
    r.toList = [[7, 7]] ∧ (ringBufferPush r fun _ => 9).1 = 1 ∧
      (ringBufferPop r).1 = some [7, 7] := by
  intro r
  have hreach : RingReachable (fun _ => 0) 2 1 r :=
    .next (.push fun _ => 7) (.start rfl) rfl
  have hpop := (ring_buffer_refines_fifo hreach).2.2.2.1.1
  exact ⟨rfl, rfl, hpop.trans rfl⟩

end Gummy
