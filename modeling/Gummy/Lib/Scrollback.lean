import Mathlib.Logic.Function.Basic
import Mathlib.Tactic.Common

/-!
A page of unboundedly many rows, and the window on its last rows.

A page is written by strokes at its cursor and goes on in the next row where a row
is full.  A display of `n` rows shows the window that ends in the row of the cursor.  The
lemmas say what each stroke changes in the rows from a given one on, so that a user
compares a display with these rows and scrolls by moving the first of them.
-/

/-- A page that is written from its first row on. -/
structure Page (α : Type*) where
  rows : ℕ → ℕ → α
  x : ℕ
  y : ℕ

/-- What may happen at the cursor. -/
inductive Stroke (α : Type*) where
  | newline
  | carriageReturn
  | put (a : α)

namespace Page

variable {α : Type*} {p : Page α} {blank : α} {w d : ℕ}

/-- The page on which nothing was written. -/
def empty (blank : α) : Page α := ⟨fun _ _ => blank, 0, 0⟩

/-- The stroke without the wrapping at the end of a row. -/
def stroke (p : Page α) : Stroke α → Page α
  | .newline => { p with y := p.y + 1 }
  | .carriageReturn => { p with x := 0 }
  | .put a =>
    { p with rows := Function.update p.rows p.y (Function.update (p.rows p.y) p.x a)
             x := p.x + 1 }

/-- Go on in the next row if this one has its `w` columns. -/
def wrap (w : ℕ) (p : Page α) : Page α :=
  if w ≤ p.x then { p with x := 0, y := p.y + 1 } else p

/-- One stroke on a page of width `w`. -/
def write (w : ℕ) (p : Page α) (s : Stroke α) : Page α := (p.stroke s).wrap w

/-- The rows from row `d` on. -/
def view (p : Page α) (d r x : ℕ) : α := p.rows (d + r) x

/-- The last `n` rows up to the cursor, or the first `n` while there are no more. -/
def window (p : Page α) (n r x : ℕ) : α := p.view (p.y - (n - 1)) r x

/-- Nothing is written below the cursor. -/
def BlankBelow (blank : α) (p : Page α) : Prop := ∀ r, p.y < r → ∀ x, p.rows r x = blank

/-- Nothing is written in the row of the cursor either. -/
def Fresh (blank : α) (p : Page α) : Prop := ∀ r, p.y ≤ r → ∀ x, p.rows r x = blank

lemma blankBelow_empty : BlankBelow blank (empty blank) := by
  intro r _ x
  rfl

lemma BlankBelow.stroke (h : p.BlankBelow blank) (s : Stroke α) :
    (p.stroke s).BlankBelow blank := by
  cases s with
  | newline =>
    intro r hr x
    exact h r (Nat.lt_of_succ_lt hr) x
  | carriageReturn => exact h
  | put a =>
    intro r hr x
    have hne : r ≠ p.y := Nat.ne_of_gt hr
    simp only [Page.stroke, Function.update_of_ne hne]
    exact h r hr x

lemma BlankBelow.wrap (h : p.BlankBelow blank) (w : ℕ) : (p.wrap w).BlankBelow blank := by
  unfold Page.wrap
  split_ifs
  · intro r hr x
    exact h r (Nat.lt_of_succ_lt hr) x
  · exact h

lemma BlankBelow.fresh_newline (h : p.BlankBelow blank) : (p.stroke .newline).Fresh blank :=
  fun r hr => h r hr

lemma BlankBelow.fresh_wrap (h : p.BlankBelow blank) (hw : w ≤ p.x) :
    (p.wrap w).Fresh blank := by
  rw [Page.wrap, if_pos hw]
  exact fun r hr => h r hr

lemma view_wrap (w : ℕ) (p : Page α) : (p.wrap w).view d = p.view d := by
  unfold wrap
  split_ifs <;> rfl

lemma view_newline : (p.stroke .newline).view d = p.view d := rfl

lemma view_carriageReturn : (p.stroke .carriageReturn).view d = p.view d := rfl

lemma view_put {a : α} {r x : ℕ} : (p.stroke (.put a)).view d r x =
    if d + r = p.y ∧ x = p.x then a else p.view d r x := by
  simp only [view, stroke]
  by_cases hr : d + r = p.y
  · rw [hr, Function.update_self, Function.update_apply]
    simp
  · rw [Function.update_of_ne hr, if_neg fun h => hr h.1]

/-- Scrolling by one row. -/
lemma view_succ (r : ℕ) : p.view (d + 1) r = p.view d (r + 1) := by
  funext x
  simp only [view, Nat.add_right_comm d 1 r, Nat.add_assoc]

lemma Fresh.view (h : p.Fresh blank) {r : ℕ} (hr : p.y ≤ d + r) (x : ℕ) :
    p.view d r x = blank :=
  h (d + r) hr x

/-- The rows from `d` on are the window if the cursor is in the last row of the display, or
nothing has been scrolled off. -/
lemma window_eq_view {n y : ℕ} (hy : y + d = p.y) (hlt : y < n) (hd : d = 0 ∨ n ≤ y + 1) :
    p.window n = p.view d := by
  have h : p.y - (n - 1) = d := by
    rcases hd with rfl | hn <;> omega
  funext r x
  rw [window, h]

end Page
