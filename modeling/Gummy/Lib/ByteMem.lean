import Mathlib.Data.Nat.Bitwise
import Mathlib.Logic.Function.Basic

/-!
Byte-addressed memory with little-endian 32-bit words.

The memory is total: which addresses are backed by storage is a matter of the
program that uses it.  The lemmas say where a write is seen and where it is not,
so that a user never unfolds the byte order.
-/

/-- The contents of a memory, byte by byte. -/
abbrev ByteMem := ℕ → UInt8

namespace ByteMem

/-- The little-endian half-word at `a`. -/
def read16 (m : ByteMem) (a : ℕ) : ℕ := (m a).toNat + 2 ^ 8 * (m (a + 1)).toNat

/-- The little-endian word at `a`. -/
def read32 (m : ByteMem) (a : ℕ) : ℕ :=
  (m a).toNat + 2 ^ 8 * (m (a + 1)).toNat + 2 ^ 16 * (m (a + 2)).toNat
    + 2 ^ 24 * (m (a + 3)).toNat

/-- Store the byte `b` at `a`. -/
def write8 (m : ByteMem) (a : ℕ) (b : UInt8) : ByteMem := Function.update m a b

/-- Store the word `v` at `a`, little-endian. -/
def write32 (m : ByteMem) (a v : ℕ) : ByteMem := fun x =>
  if x = a then UInt8.ofNat v
  else if x = a + 1 then UInt8.ofNat (v / 2 ^ 8)
  else if x = a + 2 then UInt8.ofNat (v / 2 ^ 16)
  else if x = a + 3 then UInt8.ofNat (v / 2 ^ 24)
  else m x

lemma read16_lt (m : ByteMem) (a : ℕ) : m.read16 a < 2 ^ 16 := by
  have h0 := (m a).toNat_lt
  have h1 := (m (a + 1)).toNat_lt
  unfold read16
  omega

lemma read32_lt (m : ByteMem) (a : ℕ) : m.read32 a < 2 ^ 32 := by
  have h0 := (m a).toNat_lt
  have h1 := (m (a + 1)).toNat_lt
  have h2 := (m (a + 2)).toNat_lt
  have h3 := (m (a + 3)).toNat_lt
  unfold read32
  omega

/-- A word depends on its four bytes only. -/
lemma read32_congr {m m' : ByteMem} {a : ℕ} (h : ∀ x, a ≤ x → x < a + 4 → m' x = m x) :
    m'.read32 a = m.read32 a := by
  simp only [read32]
  rw [h a (by omega) (by omega), h (a + 1) (by omega) (by omega), h (a + 2) (by omega) (by omega),
    h (a + 3) (by omega) (by omega)]

@[simp] lemma write8_same (m : ByteMem) (a : ℕ) (b : UInt8) : m.write8 a b a = b := by
  simp [write8]

lemma write8_of_ne (m : ByteMem) {a x : ℕ} (b : UInt8) (h : x ≠ a) : m.write8 a b x = m x := by
  simp [write8, h]

lemma write32_of_disjoint (m : ByteMem) {a x : ℕ} (v : ℕ) (h : x < a ∨ a + 4 ≤ x) :
    m.write32 a v x = m x := by
  unfold write32
  rw [if_neg (by omega), if_neg (by omega), if_neg (by omega), if_neg (by omega)]

lemma read32_write32_same (m : ByteMem) {a v : ℕ} (hv : v < 2 ^ 32) :
    (m.write32 a v).read32 a = v := by
  simp only [read32, write32, if_true, if_neg (show a + 1 ≠ a by omega),
    if_neg (show a + 2 ≠ a by omega), if_neg (show a + 3 ≠ a by omega),
    if_neg (show a + 2 ≠ a + 1 by omega), if_neg (show a + 3 ≠ a + 1 by omega),
    if_neg (show a + 3 ≠ a + 2 by omega), UInt8.toNat_ofNat']
  omega

lemma read32_write32_of_disjoint (m : ByteMem) {a b : ℕ} (v : ℕ) (h : b + 4 ≤ a ∨ a + 4 ≤ b) :
    (m.write32 a v).read32 b = m.read32 b :=
  read32_congr fun _ _ _ => write32_of_disjoint m v (by omega)

lemma read32_write8_of_disjoint (m : ByteMem) {a b : ℕ} (v : UInt8) (h : b + 4 ≤ a ∨ a < b) :
    (m.write8 a v).read32 b = m.read32 b :=
  read32_congr fun _ _ _ => write8_of_ne m v (by omega)

/-- The memory whose aligned words are given. -/
def ofWords (w : ℕ → ℕ) : ByteMem := fun x => UInt8.ofNat (w (x / 4) / 2 ^ (8 * (x % 4)))

lemma read32_ofWords {w : ℕ → ℕ} {a : ℕ} (h : w a < 2 ^ 32) : (ofWords w).read32 (4 * a) = w a := by
  have h0 : 4 * a / 4 = a ∧ 4 * a % 4 = 0 := by omega
  have h1 : (4 * a + 1) / 4 = a ∧ (4 * a + 1) % 4 = 1 := by omega
  have h2 : (4 * a + 2) / 4 = a ∧ (4 * a + 2) % 4 = 2 := by omega
  have h3 : (4 * a + 3) / 4 = a ∧ (4 * a + 3) % 4 = 3 := by omega
  simp only [read32, ofWords, h0, h1, h2, h3, UInt8.toNat_ofNat']
  omega

/-! ### Blocks of bytes -/

/-- The `n` bytes from `a` on. -/
def bytes (m : ByteMem) (a n : ℕ) : List UInt8 := (List.range n).map fun i => m (a + i)

/-- Store the bytes `l` from `a` on. -/
def store (m : ByteMem) (a : ℕ) (l : List UInt8) : ByteMem := fun x =>
  if a ≤ x then l.getD (x - a) (m x) else m x

@[simp] lemma length_bytes (m : ByteMem) (a n : ℕ) : (m.bytes a n).length = n := by simp [bytes]

lemma store_of_disjoint (m : ByteMem) {a x : ℕ} {l : List UInt8} (h : x < a ∨ a + l.length ≤ x) :
    m.store a l x = m x := by
  unfold store
  split_ifs with hx
  · simp [List.getD_eq_getElem?_getD, List.getElem?_eq_none (show l.length ≤ x - a by omega)]
  · rfl

lemma store_add (m : ByteMem) (a : ℕ) {l : List UInt8} {i : ℕ} (h : i < l.length) :
    m.store a l (a + i) = l[i] := by
  simp [store, h]

/-- What is stored does not depend on the bytes elsewhere. -/
lemma store_congr {m m' : ByteMem} {a x : ℕ} (l : List UInt8) (h : m x = m' x) :
    m.store a l x = m'.store a l x := by
  simp only [store, h]

@[simp] lemma store_nil (m : ByteMem) (a : ℕ) : m.store a [] = m := by
  funext x
  exact store_of_disjoint m (by simp; omega)

lemma store_append (m : ByteMem) (a : ℕ) (l l' : List UInt8) :
    m.store a (l ++ l') = (m.store a l).store (a + l.length) l' := by
  funext x
  by_cases h : x < a ∨ a + (l ++ l').length ≤ x
  · rw [List.length_append] at h
    rw [store_of_disjoint _ (by rw [List.length_append]; omega), store_of_disjoint _ (by omega),
      store_of_disjoint _ (by omega)]
  · obtain ⟨i, rfl⟩ : ∃ i, x = a + i := ⟨x - a, by omega⟩
    have hi : i < (l ++ l').length := by omega
    rw [store_add _ _ hi]
    by_cases hl : i < l.length
    · rw [store_of_disjoint _ (by omega), store_add _ _ hl, List.getElem_append_left hl]
    · obtain ⟨j, rfl⟩ : ∃ j, i = l.length + j := ⟨i - l.length, by omega⟩
      have hj : j < l'.length := by
        rw [List.length_append] at hi
        omega
      rw [← Nat.add_assoc, store_add _ _ hj, List.getElem_append_right (by omega)]
      simp

lemma bytes_store_same (m : ByteMem) (a : ℕ) (l : List UInt8) :
    (m.store a l).bytes a l.length = l := by
  refine List.ext_getElem (by simp) fun i h _ => ?_
  have hi : i < l.length := by simpa using h
  simp [bytes, store_add m a hi]

/-- A copy of `n` bytes from `b` in one memory to `a` in another. -/
lemma store_bytes_add (m d : ByteMem) (a b : ℕ) {i n : ℕ} (h : i < n) :
    m.store a (d.bytes b n) (a + i) = d (b + i) := by
  rw [store_add _ _ (by simpa using h)]
  simp [bytes]

lemma bytes_store_of_disjoint (m : ByteMem) {a b n : ℕ} {l : List UInt8}
    (h : b + n ≤ a ∨ a + l.length ≤ b) : (m.store a l).bytes b n = m.bytes b n := by
  refine List.map_congr_left fun i hi => ?_
  have := List.mem_range.1 hi
  exact store_of_disjoint m (by omega)

/-! ### What lies in memory -/

/-- The bytes `l` lie at `a`. -/
def Holds (m : ByteMem) (a : ℕ) (l : List UInt8) : Prop := m.bytes a l.length = l

lemma bytes_append (m : ByteMem) (a i j : ℕ) :
    m.bytes a (i + j) = m.bytes a i ++ m.bytes (a + i) j := by
  simp only [bytes, List.range_add, List.map_append, List.map_map, Function.comp_def, Nat.add_assoc]

lemma holds_append {m : ByteMem} {a : ℕ} {l l' : List UInt8} :
    m.Holds a (l ++ l') ↔ m.Holds a l ∧ m.Holds (a + l.length) l' := by
  rw [Holds, List.length_append, bytes_append]
  constructor
  · intro h
    exact List.append_inj h (length_bytes ..)
  · rintro ⟨h, h'⟩
    rw [Holds] at h h'
    rw [h, h']

lemma Holds.getElem {m : ByteMem} {a : ℕ} {l : List UInt8} (h : m.Holds a l) {i : ℕ}
    (hi : i < l.length) : m (a + i) = l[i] := by
  have hget : (m.bytes a l.length)[i]? = l[i]? := congrArg (·[i]?) h
  rw [List.getElem?_eq_getElem hi, List.getElem?_eq_getElem (by simpa using hi)] at hget
  simpa [bytes] using hget

/-- The four bytes of a word, little-endian. -/
def wordBytes (v : ℕ) : List UInt8 :=
  [UInt8.ofNat v, UInt8.ofNat (v / 2 ^ 8), UInt8.ofNat (v / 2 ^ 16), UInt8.ofNat (v / 2 ^ 24)]

@[simp] lemma length_wordBytes (v : ℕ) : (wordBytes v).length = 4 := rfl

lemma Holds.read32 {m : ByteMem} {a v : ℕ} (h : m.Holds a (wordBytes v)) (hv : v < 2 ^ 32) :
    m.read32 a = v := by
  have h0 := h.getElem (i := 0) (by simp)
  have h1 := h.getElem (i := 1) (by simp)
  have h2 := h.getElem (i := 2) (by simp)
  have h3 := h.getElem (i := 3) (by simp)
  simp only [wordBytes, Nat.add_zero, List.getElem_cons_zero, List.getElem_cons_succ] at h0 h1 h2 h3
  simp only [ByteMem.read32, h0, h1, h2, h3, UInt8.toNat_ofNat']
  omega

end ByteMem
