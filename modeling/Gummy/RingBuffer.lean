import Gummy.Lib.ByteMem
import Mathlib.Data.Nat.ModEq

/-!
The ring buffer of `ring_buffer.c`.

`Holds` says which list of elements a buffer stands for; the specifications of the
operations are the ones of a bounded queue.  No pointer is `NULL` here: every
caller passes the address of an object.
-/

namespace Gummy

/-- `ring_buffer_t`, with the bytes that `buf` points to. -/
structure RingBuffer where
  buf : ByteMem
  elemSize : ℕ
  capacity : ℕ
  head : ℕ
  tail : ℕ
  count : ℕ

/-- `ring_buffer_init` -/
def ringBufferInit (storage : ByteMem) (elemSize capacity : ℕ) : RingBuffer :=
  { buf := storage, elemSize, capacity, head := 0, tail := 0, count := 0 }

/-- `ring_buffer_full` -/
def ringBufferFull (r : RingBuffer) : Bool := r.count ≥ r.capacity

/-- `ring_buffer_empty` -/
def ringBufferEmpty (r : RingBuffer) : Bool := r.count = 0

/-- The bytes of one slot of the storage. -/
def RingBuffer.slot (r : RingBuffer) (i : ℕ) : List UInt8 :=
  r.buf.bytes (i * r.elemSize) r.elemSize

/-- `ring_buffer_push`: the status, nonzero when the buffer is full. -/
def ringBufferPush (r : RingBuffer) (elem : ByteMem) : ℕ × RingBuffer :=
  if ringBufferFull r then (1, r)
  else (0, { r with
    buf := r.buf.store (r.tail * r.elemSize) (elem.bytes 0 r.elemSize)
    tail := (r.tail + 1) % r.capacity
    count := r.count + 1 })

/-- `ring_buffer_peek`: the bytes written to `out`, `none` when the buffer is empty. -/
def ringBufferPeek (r : RingBuffer) : Option (List UInt8) :=
  if ringBufferEmpty r then none else some (r.slot r.head)

/-- `ring_buffer_pop`: the bytes written to `out`, `none` when the buffer is empty. -/
def ringBufferPop (r : RingBuffer) : Option (List UInt8) × RingBuffer :=
  match ringBufferPeek r with
  | none => (none, r)
  | some out => (some out, { r with
      head := (r.head + 1) % r.capacity
      count := r.count - 1 })

/-! ### The queue it stands for -/

/-- The buffer holds the elements `l`, oldest first. -/
structure RingBuffer.Holds (r : RingBuffer) (l : List (List UInt8)) : Prop where
  count : r.count = l.length
  le : l.length ≤ r.capacity
  head : r.head % r.capacity = r.head
  tail : r.tail = (r.head + r.count) % r.capacity
  slot : ∀ i, (h : i < l.length) → r.slot ((r.head + i) % r.capacity) = l[i]

namespace RingBuffer.Holds

variable {r : RingBuffer} {l : List (List UInt8)}

lemma init (storage : ByteMem) (elemSize capacity : ℕ) :
    (ringBufferInit storage elemSize capacity).Holds [] :=
  ⟨rfl, Nat.zero_le _, Nat.zero_mod _, by simp [ringBufferInit], fun i h => by simp at h⟩

lemma empty_iff (h : r.Holds l) : ringBufferEmpty r = true ↔ l = [] := by
  simp [ringBufferEmpty, h.count]

lemma full_iff (h : r.Holds l) : ringBufferFull r = true ↔ l.length = r.capacity := by
  have := h.le
  simp only [ringBufferFull, h.count, ge_iff_le, decide_eq_true_eq]
  omega

/-- Different slots do not overlap. -/
lemma slot_disjoint {i j size : ℕ} (h : i ≠ j) : i * size + size ≤ j * size ∨
    j * size + size ≤ i * size := by
  rw [← Nat.succ_mul, ← Nat.succ_mul]
  obtain h | h := Nat.lt_or_gt_of_ne h
  · exact Or.inl (Nat.mul_le_mul_right _ h)
  · exact Or.inr (Nat.mul_le_mul_right _ h)

lemma push_full (h : r.Holds l) (hl : l.length = r.capacity) (elem : ByteMem) :
    ringBufferPush r elem = (1, r) := by
  rw [ringBufferPush, if_pos (h.full_iff.2 hl)]

/-- A push into a buffer with room appends the element. -/
theorem push (h : r.Holds l) (hl : l.length < r.capacity) (elem : ByteMem) :
    ∃ r', ringBufferPush r elem = (0, r') ∧ r'.Holds (l ++ [elem.bytes 0 r.elemSize]) ∧
      r'.elemSize = r.elemSize ∧ r'.capacity = r.capacity := by
  have hfull : ¬ ringBufferFull r = true := fun hf => hl.ne (h.full_iff.1 hf)
  refine ⟨{ r with
    buf := r.buf.store (r.tail * r.elemSize) (elem.bytes 0 r.elemSize)
    tail := (r.tail + 1) % r.capacity
    count := r.count + 1 }, by rw [ringBufferPush, if_neg hfull], ?_, rfl, rfl⟩
  refine ⟨by simp [h.count], by simp; omega, h.head, ?_, fun i hi => ?_⟩
  · simp only [h.tail, Nat.mod_add_mod, Nat.add_assoc]
  · have hi' : i ≤ l.length := by simpa [Nat.lt_succ_iff] using hi
    simp only [RingBuffer.slot]
    obtain hlt | heq := Nat.lt_or_eq_of_le hi'
    · -- an older element lies in another slot than the one written
      have hne : (r.head + i) % r.capacity ≠ r.tail := by
        intro heq
        rw [h.tail, h.count] at heq
        have hmod : i ≡ l.length [MOD r.capacity] := Nat.ModEq.add_left_cancel' r.head heq
        exact hlt.ne (hmod.eq_of_lt_of_lt (by omega) hl)
      rw [ByteMem.bytes_store_of_disjoint, List.getElem_append_left hlt, ← h.slot i hlt,
        RingBuffer.slot]
      rw [ByteMem.length_bytes]
      exact slot_disjoint hne
    · have hslot : (r.head + i) % r.capacity = r.tail := by rw [heq, ← h.count, ← h.tail]
      have hsame := ByteMem.bytes_store_same r.buf (r.tail * r.elemSize) (elem.bytes 0 r.elemSize)
      rw [ByteMem.length_bytes] at hsame
      simp only [hslot, hsame]
      simp [heq]

lemma pop_nil (h : r.Holds []) : ringBufferPop r = (none, r) := by
  have hempty : ringBufferEmpty r = true := h.empty_iff.2 rfl
  rw [ringBufferPop, ringBufferPeek, if_pos hempty]

/-- A pop yields the oldest element. -/
theorem pop_cons {x : List UInt8} (h : r.Holds (x :: l)) :
    ∃ r', ringBufferPop r = (some x, r') ∧ r'.Holds l ∧ r'.elemSize = r.elemSize ∧
      r'.capacity = r.capacity := by
  have hempty : ¬ ringBufferEmpty r = true := fun he => by simpa using h.empty_iff.1 he
  have hle : l.length + 1 ≤ r.capacity := h.le
  have hx : r.slot r.head = x := by
    have h0 := h.slot 0 (by simp)
    rwa [Nat.add_zero, h.head] at h0
  refine ⟨{ r with head := (r.head + 1) % r.capacity, count := r.count - 1 }, ?_, ?_, rfl, rfl⟩
  · rw [ringBufferPop, ringBufferPeek, if_neg hempty, hx]
  · have hcount : r.count = l.length + 1 := h.count
    refine ⟨by simp [hcount], by simp; omega, Nat.mod_mod _ _, ?_, fun i hi => ?_⟩
    · simp only [h.tail, hcount, Nat.mod_add_mod, Nat.add_sub_cancel]
      congr 1
      omega
    · have hi' := h.slot (i + 1) (by simpa using hi)
      simp only [RingBuffer.slot, Nat.mod_add_mod, List.getElem_cons_succ] at hi' ⊢
      rw [← hi']
      congr 3
      omega

end RingBuffer.Holds

end Gummy
