import Mathlib.Tactic.NormNum
import Mathlib.Tactic.Ring
import Gummy.Lib.ByteMem

/-!
Tables of `w`-bit numbers packed one behind the other.

A memory is read as a sequence of bits, the least significant bit of each byte first.  Entry
`c` of a packed table is the number that the bits from `w * c` on spell; where the bytes end
does not matter.
-/

namespace ByteMem

/-- Bit `i` of the memory. -/
def bit (m : ByteMem) (i : ℕ) : Bool := (m (i / 8)).toNat.testBit (i % 8)

/-- The number `e` is entry `c` of the table of `w`-bit numbers at the start of `m`. -/
structure PackedEntry (w : ℕ) (m : ByteMem) (c e : ℕ) : Prop where
  lt : e < 2 ^ w
  testBit : ∀ k < w, e.testBit k = m.bit (w * c + k)

/-- The table that holds the list `l`. -/
def pack (w : ℕ) (l : List ℕ) : ByteMem := fun a =>
  UInt8.ofNat (Nat.ofBits fun j : Fin 8 => (l.getD ((8 * a + j) / w) 0).testBit ((8 * a + j) % w))

variable {m m' : ByteMem} {w c e e' : ℕ} {l : List ℕ}

/-- The bits of a half-word. -/
lemma testBit_read16 (m : ByteMem) (a : ℕ) {k : ℕ} (hk : k < 16) :
    (m.read16 a).testBit k = m.bit (8 * a + k) := by
  have hlow : (m a).toNat < 2 ^ 8 := (m a).toNat_lt
  rw [read16, Nat.add_comm, Nat.testBit_two_pow_mul_add _ hlow, bit]
  split_ifs with hlt
  · rw [show (8 * a + k) / 8 = a by omega, show (8 * a + k) % 8 = k by omega]
  · rw [show (8 * a + k) / 8 = a + 1 by omega, show (8 * a + k) % 8 = k - 8 by omega]

namespace PackedEntry

lemma unique (h : PackedEntry w m c e) (h' : PackedEntry w m c e') : e = e' := by
  apply Nat.eq_of_testBit_eq
  intro k
  by_cases hk : k < w
  · rw [h.testBit k hk, h'.testBit k hk]
  · have hle : 2 ^ w ≤ 2 ^ k := Nat.pow_le_pow_right (by norm_num) (not_lt.1 hk)
    rw [Nat.testBit_lt_two_pow (h.lt.trans_le hle), Nat.testBit_lt_two_pow (h'.lt.trans_le hle)]

/-- An entry depends on the bytes of its table only. -/
lemma congr {n : ℕ} (h : PackedEntry w m c e) (hc : c < n)
    (hm : ∀ a, 8 * a < w * n → m' a = m a) : PackedEntry w m' c e := by
  refine ⟨h.lt, fun k hk => ?_⟩
  have hlt : w * c + k < w * n := by
    calc w * c + k < w * c + w := Nat.add_lt_add_left hk _
      _ = w * (c + 1) := by ring
      _ ≤ w * n := Nat.mul_le_mul_left w hc
  rw [h.testBit k hk, bit, bit, hm _ (by omega)]

end PackedEntry

lemma bit_pack (w : ℕ) (l : List ℕ) (i : ℕ) :
    (pack w l).bit i = (l.getD (i / w) 0).testBit (i % w) := by
  have hmod : i % 8 < 8 := Nat.mod_lt i (by norm_num)
  have hbyte : ∀ f : Fin 8 → Bool, (UInt8.ofNat (Nat.ofBits f)).toNat = Nat.ofBits f := by
    intro f
    have hlt := Nat.ofBits_lt_two_pow f
    rw [UInt8.toNat_ofNat']
    exact Nat.mod_eq_of_lt hlt
  rw [bit, pack, hbyte, Nat.testBit_ofBits_lt _ _ hmod]
  dsimp only
  rw [Nat.div_add_mod]

/-- Unpacking what was packed. -/
lemma packedEntry_pack (hw : 0 < w) (he : l.getD c 0 < 2 ^ w) :
    PackedEntry w (pack w l) c (l.getD c 0) := by
  refine ⟨he, fun k hk => ?_⟩
  rw [bit_pack, Nat.mul_add_div hw, Nat.div_eq_of_lt hk, Nat.add_zero, Nat.mul_add_mod,
    Nat.mod_eq_of_lt hk]

end ByteMem
