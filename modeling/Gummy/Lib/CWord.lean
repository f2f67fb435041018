import Mathlib.Data.Nat.Bitwise
import Mathlib.Tactic.NormNum
import Mathlib.Tactic.Ring

/-!
Unsigned machine words as natural numbers.

A word of `w` bits is a natural number below `2 ^ w`; every operation that can
leave this range reduces its result explicitly.  The bit masks of C code that
rounds to a power of two are kept as masks, and `alignDown_two_pow` and
`alignUp_two_pow` give them their arithmetic meaning once.
-/

namespace CWord

/-- The 32-bit word congruent to `x`. -/
def u32 (x : ℕ) : ℕ := x % 2 ^ 32

/-- Subtraction of 32-bit words. -/
def sub32 (a b : ℕ) : ℕ := u32 (a + (2 ^ 32 - b))

/-- `x & ~(a - 1)` on words of `w` bits. -/
def alignDown (w x a : ℕ) : ℕ := x &&& (2 ^ w - 1 - (a - 1))

/-- `(x + (a - 1)) & ~(a - 1)` on words of `w` bits. -/
def alignUp (w x a : ℕ) : ℕ := alignDown w ((x + (a - 1)) % 2 ^ w) a

lemma u32_lt (x : ℕ) : u32 x < 2 ^ 32 := Nat.mod_lt _ (by norm_num)

lemma u32_of_lt {x : ℕ} (h : x < 2 ^ 32) : u32 x = x := Nat.mod_eq_of_lt h

lemma sub32_of_le {a b : ℕ} (ha : a < 2 ^ 32) (h : b ≤ a) : sub32 a b = a - b := by
  unfold sub32 u32
  omega

/-- The complement of a block of `k` low bits, bit by bit. -/
lemma testBit_mask {w k i : ℕ} (hk : k ≤ w) :
    (2 ^ w - 1 - (2 ^ k - 1)).testBit i = (decide (k ≤ i) && decide (i < w)) := by
  have hpow : 2 ^ k ≤ 2 ^ w := Nat.pow_le_pow_right (by norm_num) hk
  have hmul : 2 ^ w - 1 - (2 ^ k - 1) = 2 ^ k * (2 ^ (w - k) - 1) := by
    rw [Nat.mul_sub, ← pow_add, Nat.add_sub_cancel' hk, mul_one]
    have hpos := Nat.two_pow_pos k
    omega
  rw [hmul, Nat.testBit_two_pow_mul, Nat.testBit_two_pow_sub_one]
  by_cases hi : k ≤ i
  · simp only [hi, decide_true, Bool.true_and, decide_eq_decide]
    omega
  · simp [hi]

lemma alignDown_two_pow {w x k : ℕ} (hk : k ≤ w) (hx : x < 2 ^ w) :
    alignDown w x (2 ^ k) = 2 ^ k * (x / 2 ^ k) := by
  apply Nat.eq_of_testBit_eq
  intro i
  rw [alignDown, Nat.testBit_and, testBit_mask hk, Nat.testBit_two_pow_mul,
    Nat.testBit_div_two_pow]
  by_cases hi : k ≤ i
  · by_cases hw : i < w
    · simp [hi, hw]
    · have hfalse : x.testBit i = false :=
        Nat.testBit_lt_two_pow (hx.trans_le (Nat.pow_le_pow_right (by norm_num) (by omega)))
      simp [hi, hw, hfalse]
  · simp [hi]

lemma alignUp_two_pow {w x k : ℕ} (hk : k ≤ w) :
    alignUp w x (2 ^ k) = 2 ^ k * ((x + (2 ^ k - 1)) % 2 ^ w / 2 ^ k) :=
  alignDown_two_pow hk (Nat.mod_lt _ (Nat.two_pow_pos w))

end CWord
