import Gummy.Lib.ByteMem
import Mathlib.Data.List.Basic

/-!
Words that lie one after the other in memory.

A stack that grows downwards is read as the list of its words, the last one pushed first: a push
puts a word before the list and changes nothing above it, and a pop takes the first word off.
-/

namespace ByteMem

variable {m m' : ByteMem} {a v : ℕ} {l l' : List ℕ}

/-- The words `l` lie from `a` on. -/
def Words (m : ByteMem) (a : ℕ) : List ℕ → Prop
  | [] => True
  | v :: l => m.read32 a = v ∧ Words m (a + 4) l

/-- Words depend on their bytes only. -/
lemma Words.congr (h : m.Words a l) (hm : ∀ x, a ≤ x → x < a + 4 * l.length → m' x = m x) :
    m'.Words a l := by
  induction l generalizing a with
  | nil => trivial
  | cons v l ih =>
    obtain ⟨hv, hl⟩ := h
    rw [List.length_cons] at hm
    refine ⟨(read32_congr fun x hx hx' => hm x hx (by omega)).trans hv, ih hl fun x hx hx' => ?_⟩
    exact hm x (by omega) (by omega)

lemma words_append : m.Words a (l ++ l') ↔ m.Words a l ∧ m.Words (a + 4 * l.length) l' := by
  induction l generalizing a with
  | nil => simp [Words]
  | cons v l ih =>
    rw [List.cons_append, Words, Words, ih, List.length_cons, and_assoc,
      show a + 4 + 4 * l.length = a + 4 * (l.length + 1) by omega]

lemma Words.read32 (h : m.Words a l) {i : ℕ} (hi : i < l.length) : m.read32 (a + 4 * i) = l[i] := by
  induction l generalizing a i with
  | nil => exact absurd hi (Nat.not_lt_zero i)
  | cons v l ih =>
    obtain ⟨hv, hl⟩ := h
    cases i with
    | zero => exact hv
    | succ i =>
      rw [List.getElem_cons_succ, ← ih hl (Nat.lt_of_succ_lt_succ hi),
        show a + 4 * (i + 1) = a + 4 + 4 * i by omega]

lemma words_zero {n : ℕ} (h : ∀ x, a ≤ x → x < a + 4 * n → m x = 0) :
    m.Words a (List.replicate n 0) := by
  induction n generalizing a with
  | zero => trivial
  | succ n ih =>
    refine ⟨?_, ih fun x hx hx' => h x (by omega) (by omega)⟩
    rw [ByteMem.read32, h a (by omega) (by omega), h (a + 1) (by omega) (by omega),
      h (a + 2) (by omega) (by omega), h (a + 3) (by omega) (by omega)]
    rfl

/-- A push. -/
lemma Words.push (h : m.Words a l) (ha : 4 ≤ a) (hv : v < 2 ^ 32) :
    (m.write32 (a - 4) v).Words (a - 4) (v :: l) := by
  refine ⟨read32_write32_same m hv, ?_⟩
  rw [Nat.sub_add_cancel ha]
  exact h.congr fun x hx _ => write32_of_disjoint m v (by omega)

/-- A word in the middle is written anew. -/
lemma Words.set (h : m.Words a (l ++ v :: l')) {w : ℕ} (hw : w < 2 ^ 32) :
    (m.write32 (a + 4 * l.length) w).Words a (l ++ w :: l') := by
  obtain ⟨hl, -, hl'⟩ := words_append.1 h
  refine words_append.2 ⟨?_, read32_write32_same m hw, ?_⟩
  · exact hl.congr fun x hx hx' => write32_of_disjoint m w (by omega)
  · exact hl'.congr fun x hx hx' => write32_of_disjoint m w (by omega)

/-- Store the words `l` from `a` on. -/
def writeWords (m : ByteMem) (a : ℕ) : List ℕ → ByteMem
  | [] => m
  | v :: l => writeWords (m.write32 a v) (a + 4) l

lemma writeWords_of_disjoint {x : ℕ} (h : x < a ∨ a + 4 * l.length ≤ x) :
    m.writeWords a l x = m x := by
  induction l generalizing m a with
  | nil => rfl
  | cons v l ih =>
    rw [List.length_cons] at h
    rw [writeWords, ih (by omega), write32_of_disjoint _ _ (by omega)]

lemma words_writeWords (hv : ∀ v ∈ l, v < 2 ^ 32) : (m.writeWords a l).Words a l := by
  induction l generalizing m a with
  | nil => trivial
  | cons v l ih =>
    refine ⟨?_, ih fun w hw => hv w (List.mem_cons_of_mem _ hw)⟩
    rw [writeWords]
    refine (read32_congr fun x _ _ => writeWords_of_disjoint (by omega)).trans ?_
    exact read32_write32_same m (hv v List.mem_cons_self)

end ByteMem
