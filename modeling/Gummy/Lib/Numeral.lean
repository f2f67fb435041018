import Mathlib.Data.Nat.Digits.Lemmas
import Mathlib.Tactic.NormNum

/-!
Numerals as text, in bases up to 16.

`numeral` writes a number without leading zeros and `readNat` reads any digits back, so
that what a program prints can be compared with the number and not with its digits.  The
letters of the digits from ten on are of one case.
-/

namespace Numeral

/-- The digit `d < 16`. -/
def digitByte (upper : Bool) (d : ℕ) : UInt8 :=
  UInt8.ofNat (if d < 10 then 48 + d else if upper then 55 + d else 87 + d)

/-- The digit that a character denotes, letters in one case only. -/
def digitValue (upper : Bool) (c : UInt8) : Option ℕ :=
  if 48 ≤ c.toNat ∧ c.toNat ≤ 57 then some (c.toNat - 48)
  else if upper ∧ 65 ≤ c.toNat ∧ c.toNat ≤ 70 then some (c.toNat - 55)
  else if ¬ upper ∧ 97 ≤ c.toNat ∧ c.toNat ≤ 102 then some (c.toNat - 87)
  else none

/-- The canonical numeral of `n`. -/
def numeral (base : ℕ) (upper : Bool) (n : ℕ) : List UInt8 :=
  if n = 0 then [48] else (base.digits n).reverse.map (digitByte upper)

/-- One more digit of base `base`. -/
def readDigit (base : ℕ) (upper : Bool) (v : Option ℕ) (c : UInt8) : Option ℕ :=
  v.bind fun v => (digitValue upper c).bind fun d =>
    if d < base then some (v * base + d) else none

/-- The number that digits denote; there must be one. -/
def readNat (base : ℕ) (upper : Bool) (l : List UInt8) : Option ℕ :=
  if l = [] then none else l.foldl (readDigit base upper) (some 0)

/-- The number that digits denote, `'-'` in front of them for a negative one. -/
def readInt (base : ℕ) (upper : Bool) : List UInt8 → Option ℤ
  | [] => none
  | c :: l =>
    if c = 45 then (readNat base upper l).map fun n : ℕ => -(n : ℤ)
    else (readNat base upper (c :: l)).map fun n : ℕ => (n : ℤ)

/-- A zero is no leading digit. -/
def NoLeadingZero (l : List UInt8) : Prop := l.head? = some 48 → l = [48]

variable {base n : ℕ} {upper : Bool}

lemma digitValue_digitByte (upper : Bool) {d : ℕ} (hd : d < 16) :
    digitValue upper (digitByte upper d) = some d := by
  revert upper d
  decide

lemma digitByte_ne_minus (upper : Bool) {d : ℕ} (hd : d < 16) : digitByte upper d ≠ 45 := by
  revert upper d
  decide

lemma digitByte_eq_zero (upper : Bool) {d : ℕ} (hd : d < 16) (h : digitByte upper d = 48) :
    d = 0 := by
  revert upper d
  decide

/-- Reading digits from the least significant one on. -/
lemma foldl_readDigit (hbase : base ≤ 16) {ds : List ℕ} (hds : ∀ d ∈ ds, d < base) :
    (ds.reverse.map (digitByte upper)).foldl (readDigit base upper) (some 0) =
      some (Nat.ofDigits base ds) := by
  induction ds with
  | nil => rfl
  | cons d ds ih =>
    have hd : d < base := hds d (by simp)
    have ih' := ih fun e he => hds e (by simp [he])
    rw [List.reverse_cons, List.map_append, List.foldl_append, ih']
    simp [readDigit, digitValue_digitByte upper (hd.trans_le hbase), hd, Nat.ofDigits_cons,
      Nat.mul_comm, Nat.add_comm]

lemma numeral_ne_nil (base : ℕ) (upper : Bool) (n : ℕ) : numeral base upper n ≠ [] := by
  unfold numeral
  split_ifs with h
  · simp
  · simpa using Nat.digits_ne_nil_iff_ne_zero.2 h

theorem readNat_numeral (h2 : 2 ≤ base) (hbase : base ≤ 16) (upper : Bool) (n : ℕ) :
    readNat base upper (numeral base upper n) = some n := by
  rw [readNat, if_neg (numeral_ne_nil base upper n)]
  unfold numeral
  split_ifs with h
  · have hzero : digitValue upper 48 = some 0 := digitValue_digitByte upper (d := 0) (by norm_num)
    simp [readDigit, hzero, h, show 0 < base by omega]
  · rw [foldl_readDigit hbase fun d hd => Nat.digits_lt_base h2 hd, Nat.ofDigits_digits]

/-- The characters of a numeral are digits. -/
lemma mem_numeral (h2 : 2 ≤ base) (hbase : base ≤ 16) {c : UInt8}
    (hc : c ∈ numeral base upper n) : ∃ d < 16, c = digitByte upper d := by
  unfold numeral at hc
  split_ifs at hc
  · exact ⟨0, by norm_num, List.mem_singleton.1 hc⟩
  · obtain ⟨d, hd, rfl⟩ := List.mem_map.1 hc
    exact ⟨d, (Nat.digits_lt_base h2 (List.mem_reverse.1 hd)).trans_le hbase, rfl⟩

lemma numeral_noLeadingZero (h2 : 2 ≤ base) (hbase : base ≤ 16) (upper : Bool) (n : ℕ) :
    NoLeadingZero (numeral base upper n) := by
  intro hhead
  unfold numeral at hhead ⊢
  split_ifs at hhead ⊢ with h
  · rfl
  · -- the first character is the most significant digit
    exfalso
    have hne : base.digits n ≠ [] := Nat.digits_ne_nil_iff_ne_zero.2 h
    rw [List.head?_map, List.head?_reverse, List.getLast?_eq_some_getLast hne,
      Option.map_some, Option.some.injEq] at hhead
    have hlt := (Nat.digits_lt_base h2 (List.getLast_mem hne)).trans_le hbase
    exact Nat.getLast_digit_ne_zero base h (digitByte_eq_zero upper hlt hhead)

/-- A signed numeral is read back. -/
theorem readInt_numeral (h2 : 2 ≤ base) (hbase : base ≤ 16) (upper : Bool) (v : ℤ) :
    readInt base upper ((if v < 0 then [45] else []) ++ numeral base upper v.natAbs) = some v := by
  split_ifs with hneg
  · simp only [List.singleton_append, readInt, if_true, readNat_numeral h2 hbase, Option.map_some,
      Option.some.injEq]
    omega
  · obtain ⟨c, l, hcl⟩ := List.exists_cons_of_ne_nil (numeral_ne_nil base upper v.natAbs)
    obtain ⟨d, hd, hc⟩ := mem_numeral h2 hbase (hcl ▸ List.mem_cons_self : c ∈ numeral _ upper _)
    have hread := readNat_numeral h2 hbase upper v.natAbs
    rw [hcl] at hread
    rw [List.nil_append, hcl, readInt, if_neg (hc ▸ digitByte_ne_minus upper hd), hread,
      Option.map_some, Option.some.injEq]
    omega

/-- A number below `2 ^ k` has at most `k` digits. -/
lemma length_numeral_le (h2 : 2 ≤ base) (upper : Bool) {k : ℕ} (hk : 0 < k) (hn : n < 2 ^ k) :
    (numeral base upper n).length ≤ k := by
  unfold numeral
  split_ifs
  · exact hk
  · rw [List.length_map, List.length_reverse, Nat.digits_length_le_iff h2]
    exact hn.trans_le (Nat.pow_le_pow_left h2 k)

end Numeral
