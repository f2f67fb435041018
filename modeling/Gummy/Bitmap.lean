import Gummy.Lib.ByteMem
import Gummy.Lib.CWord

/-!
The bitmap of `bitmap.h`.

A bitmap is a byte array; bit `i` is bit `i % 8` of byte `i / 8`.  The first part
is the code, the second says what each function means for single bits, which is
all the frame allocator uses.
-/

namespace Gummy

open CWord

/-! ### The code -/

/-- `(uint8_t)(1 << bit)`. -/
def bitMask (bit : ℕ) : UInt8 := 1 <<< UInt8.ofNat bit

/-- `bitmap_set_bit`. -/
def bitmapSetBit (bmp : ByteMem) (bit : ℕ) : ByteMem :=
  bmp.write8 (bit / 8) (bmp (bit / 8) ||| bitMask (bit % 8))

/-- `bitmap_test_bit`. -/
def bitmapTestBit (bmp : ByteMem) (bit : ℕ) : Bool :=
  bmp (bit / 8) &&& bitMask (bit % 8) != 0

/-- `bitmap_clear_bit`. -/
def bitmapClearBit (bmp : ByteMem) (bit : ℕ) : ByteMem :=
  bmp.write8 (bit / 8) (bmp (bit / 8) &&& ~~~ bitMask (bit % 8))

/-- The inner loop of `bitmap_find_free_bit` over the remaining bits of byte `i`;
`none` when it ends without a `return`. -/
def scanByte (bmp : ByteMem) (bits i : ℕ) : List ℕ → Option ℕ
  | [] => none
  | bit :: rest =>
    let index := i * 8 + bit
    if bits ≤ index then some 0
    else if bmp i &&& bitMask bit = 0 then some index
    else scanByte bmp bits i rest

/-- The outer loop of `bitmap_find_free_bit` over the remaining bytes. -/
def scanBytes (bmp : ByteMem) (bits : ℕ) : List ℕ → ℕ
  | [] => 0
  | i :: rest =>
    if bmp i = 0xFF then scanBytes bmp bits rest
    else
      match scanByte bmp bits i (List.range 8) with
      | some r => r
      | none => scanBytes bmp bits rest

/-- `bitmap_find_free_bit`. -/
def bitmapFindFreeBit (bmp : ByteMem) (bits : ℕ) : ℕ :=
  if bits = 0 then 0
  else scanBytes bmp bits (List.range (alignUp 64 bits 8 / 8))

/-! ### Single bits -/

lemma bitMask_toNat {k : ℕ} (hk : k < 8) : (bitMask k).toNat = 2 ^ k := by
  revert k
  decide

lemma testBit_not_bitMask :
    ∀ k < 8, ∀ l < 8, (~~~ bitMask k).toNat.testBit l = !decide (k = l) := by
  decide

lemma and_bitMask_eq_zero {x : UInt8} {k : ℕ} (hk : k < 8) :
    x &&& bitMask k = 0 ↔ x.toNat.testBit k = false := by
  rw [← UInt8.toNat_inj, UInt8.toNat_and, bitMask_toNat hk, Nat.and_two_pow]
  cases x.toNat.testBit k <;> simp

lemma bitmapTestBit_eq (bmp : ByteMem) (i : ℕ) :
    bitmapTestBit bmp i = (bmp (i / 8)).toNat.testBit (i % 8) := by
  have h := and_bitMask_eq_zero (x := bmp (i / 8)) (Nat.mod_lt i (by norm_num : 0 < 8))
  unfold bitmapTestBit
  cases hb : (bmp (i / 8)).toNat.testBit (i % 8)
  · simp [h.2 hb]
  · simp [bne_iff_ne, h, hb]

lemma bitmapTestBit_setBit (bmp : ByteMem) (i j : ℕ) :
    bitmapTestBit (bitmapSetBit bmp i) j = (decide (i = j) || bitmapTestBit bmp j) := by
  rw [bitmapTestBit_eq, bitmapTestBit_eq, bitmapSetBit]
  by_cases hbyte : j / 8 = i / 8
  · rw [hbyte, ByteMem.write8_same, UInt8.toNat_or, bitMask_toNat (Nat.mod_lt _ (by norm_num)),
      Nat.testBit_or, Nat.testBit_two_pow, Bool.or_comm]
    congr 1
    simp only [decide_eq_decide]
    omega
  · rw [ByteMem.write8_of_ne _ _ hbyte, decide_eq_false (by rintro rfl; exact hbyte rfl),
      Bool.false_or]

lemma bitmapTestBit_clearBit (bmp : ByteMem) (i j : ℕ) :
    bitmapTestBit (bitmapClearBit bmp i) j = (!decide (i = j) && bitmapTestBit bmp j) := by
  rw [bitmapTestBit_eq, bitmapTestBit_eq, bitmapClearBit]
  by_cases hbyte : j / 8 = i / 8
  · have hsame : decide (i % 8 = j % 8) = decide (i = j) := by
      simp only [decide_eq_decide]
      omega
    rw [hbyte, ByteMem.write8_same, UInt8.toNat_and, Nat.testBit_and,
      testBit_not_bitMask _ (Nat.mod_lt _ (by norm_num)) _ (Nat.mod_lt _ (by norm_num)), hsame,
      Bool.and_comm]
  · rw [ByteMem.write8_of_ne _ _ hbyte, decide_eq_false (by rintro rfl; exact hbyte rfl)]
    rfl

/-! ### The search -/

/-- A clear bit. -/
def isFree (bmp : ByteMem) (bit : ℕ) : Bool := !bitmapTestBit bmp bit

lemma isFree_byte (bmp : ByteMem) (i bit : ℕ) (hbit : bit < 8) :
    isFree bmp (i * 8 + bit) = decide (bmp i &&& bitMask bit = 0) := by
  have hdiv : (i * 8 + bit) / 8 = i := by omega
  have hmod : (i * 8 + bit) % 8 = bit := by omega
  rw [isFree, bitmapTestBit, hdiv, hmod]
  by_cases h : bmp i &&& bitMask bit = 0 <;> simp [h]

lemma isFree_full {bmp : ByteMem} {i bit : ℕ} (h : bmp i = 0xFF) (hbit : bit < 8) :
    isFree bmp (i * 8 + bit) = false := by
  have hall : ∀ k < 8, decide (0xFF &&& bitMask k = 0) = false := by decide
  rw [isFree_byte bmp i bit hbit, h]
  exact hall bit hbit

/-- The inner loop returns the first clear bit; it returns `0` when it runs past
the last bit, and ends without a `return` when the byte is used up. -/
lemma scanByte_eq (bmp : ByteMem) (bits i k n : ℕ) (hn : k + n ≤ 8) (hk : i * 8 + k ≤ bits) :
    scanByte bmp bits i (List.range' k n) =
      match (List.range' (i * 8 + k) (min n (bits - (i * 8 + k)))).find? (isFree bmp) with
      | some r => some r
      | none => if bits < i * 8 + k + n then some 0 else none := by
  induction n generalizing k with
  | zero => simp [scanByte, hk]
  | succ n ih =>
    rw [List.range'_succ, scanByte]
    rcases Nat.lt_or_ge (i * 8 + k) bits with hlt | hge
    · have hmin : min (n + 1) (bits - (i * 8 + k)) = min n (bits - (i * 8 + (k + 1))) + 1 := by
        omega
      rw [if_neg (by omega), hmin, List.range'_succ, List.find?_cons,
        isFree_byte bmp i k (by omega)]
      by_cases hfree : bmp i &&& bitMask k = 0
      · simp [hfree]
      · rw [if_neg hfree, ih (k + 1) (by omega) (by omega)]
        simp only [hfree, decide_false, add_assoc, add_comm n 1]
    · have hmin : min (n + 1) (bits - (i * 8 + k)) = 0 := by omega
      rw [if_pos hge, hmin, List.range'_zero]
      simp only [List.find?_nil]
      rw [if_pos (by omega)]

lemma scanBytes_eq (bmp : ByteMem) (bits i n : ℕ) (hn : i + n = (bits + 7) / 8) :
    scanBytes bmp bits (List.range' i n)
      = ((List.range' (i * 8) (bits - i * 8)).find? (isFree bmp)).getD 0 := by
  induction n generalizing i with
  | zero =>
    rw [show bits - i * 8 = 0 by omega]
    rfl
  | succ n ih =>
    have hsplit : List.range' (i * 8) (bits - i * 8)
        = List.range' (i * 8) (min 8 (bits - i * 8))
          ++ List.range' ((i + 1) * 8) (bits - (i + 1) * 8) := by
      rw [show bits - i * 8 = min 8 (bits - i * 8) + (bits - (i + 1) * 8) by omega,
        ← List.range'_append_1]
      congr 1
      · congr 1; omega
      · rcases Nat.lt_or_ge bits ((i + 1) * 8) with h | h
        · rw [show bits - (i + 1) * 8 = 0 by omega, List.range'_zero, List.range'_zero]
        · congr 1; omega
    rw [List.range'_succ, scanBytes, hsplit, List.find?_append]
    by_cases hfull : bmp i = 0xFF
    · have hnone : (List.range' (i * 8) (min 8 (bits - i * 8))).find? (isFree bmp) = none := by
        rw [List.find?_eq_none]
        intro b hb
        obtain ⟨h1, h2⟩ := List.mem_range'_1.1 hb
        rw [show b = i * 8 + (b - i * 8) by omega, isFree_full hfull (by omega)]
        simp
      rw [if_pos hfull, ih (i + 1) (by omega), hnone, Option.none_or]
    · have hinner := scanByte_eq bmp bits i 0 8 (by omega) (by omega)
      rw [add_zero] at hinner
      rw [if_neg hfull, List.range_eq_range', hinner]
      cases (List.range' (i * 8) (min 8 (bits - i * 8))).find? (isFree bmp) with
      | some r => rfl
      | none =>
        simp only [Option.none_or]
        by_cases hlast : bits < i * 8 + 8
        · rw [if_pos hlast, show bits - (i + 1) * 8 = 0 by omega]
          rfl
        · rw [if_neg hlast, ← ih (i + 1) (by omega)]

/-- `bitmap_find_free_bit` returns the lowest clear bit below `bits`, and `0` when
there is none. -/
theorem bitmapFindFreeBit_eq (bmp : ByteMem) {bits : ℕ} (hbits : bits < 2 ^ 32) :
    bitmapFindFreeBit bmp bits = ((List.range bits).find? (isFree bmp)).getD 0 := by
  rw [bitmapFindFreeBit]
  split_ifs with h0
  · rw [h0]
    rfl
  · have hbytes : alignUp 64 bits 8 / 8 = (bits + 7) / 8 := by
      rw [show (8 : ℕ) = 2 ^ 3 by norm_num, alignUp_two_pow (by norm_num)]
      omega
    rw [hbytes, List.range_eq_range', List.range_eq_range',
      scanBytes_eq bmp bits 0 _ (by omega)]
    simp

end Gummy
