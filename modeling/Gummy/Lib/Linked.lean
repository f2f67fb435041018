import Mathlib.Data.List.Basic
import Mathlib.Data.List.Nodup
import Mathlib.Logic.Function.Basic

/-!
Doubly linked chains over arbitrary nodes.

`Linked next prev l` says that the link maps `next` and `prev` thread exactly the
list `l`: every node of `l` names its neighbours in `l`, and `none` stands at both
ends.  Nothing is said about nodes outside `l`, whose links may be stale.  The
lemmas are the three ways of editing a chain in place (appending, prepending and
unlinking) and walking it.
-/

variable {α : Type*}

/-- The chain of `l` is stored in `next` and `prev`. -/
structure Linked (next prev : α → Option α) (l : List α) : Prop where
  nodup : l.Nodup
  links : ∀ A a B, l = A ++ a :: B → next a = B.head? ∧ prev a = A.getLast?

namespace Linked

variable {next prev : α → Option α} {l : List α}

lemma nil : Linked next prev [] :=
  ⟨List.nodup_nil, fun A a B h => by simp at h⟩

lemma singleton {a : α} (hnext : next a = none) (hprev : prev a = none) : Linked next prev [a] := by
  refine ⟨List.nodup_singleton a, fun A x B hl => ?_⟩
  obtain ⟨rfl, rfl, rfl⟩ : A = [] ∧ a = x ∧ B = [] := by
    cases A <;> simp_all
  exact ⟨hnext, hprev⟩

/-- Only the links of the nodes in the chain matter. -/
lemma congr {next' prev' : α → Option α} (h : Linked next prev l)
    (hnext : ∀ a ∈ l, next' a = next a) (hprev : ∀ a ∈ l, prev' a = prev a) :
    Linked next' prev' l := by
  refine ⟨h.nodup, fun A a B hl => ?_⟩
  have ha : a ∈ l := by
    rw [hl]
    simp
  rw [hnext a ha, hprev a ha]
  exact h.links A a B hl

/-- The nodes met from `o` on, following `next` for at most `fuel` steps. -/
def chain (next : α → Option α) : ℕ → Option α → List α
  | 0, _ => []
  | _ + 1, none => []
  | fuel + 1, some a => a :: chain next fuel (next a)

lemma chain_none (next : α → Option α) (fuel : ℕ) : chain next fuel none = [] := by
  cases fuel <;> rfl

/-- Walking a chain from any of its nodes meets the rest of it. -/
lemma chain_drop {A B : List α} (h : Linked next prev (A ++ B)) {fuel : ℕ}
    (hfuel : B.length ≤ fuel) : chain next fuel B.head? = B := by
  induction B generalizing A fuel with
  | nil => exact chain_none next fuel
  | cons a B ih =>
    obtain ⟨fuel, rfl⟩ : ∃ k, fuel = k + 1 := Nat.exists_eq_add_of_le' (by simp at hfuel; omega)
    have hnext := (h.links A a B rfl).1
    rw [List.head?_cons, chain, hnext, ih (A := A ++ [a]) (by simpa using h) (by simpa using hfuel)]

lemma chain_eq (h : Linked next prev l) {fuel : ℕ} (hfuel : l.length ≤ fuel) :
    chain next fuel l.head? = l :=
  chain_drop (A := []) h hfuel

lemma next_of_eq_append {A B : List α} {a : α} (h : Linked next prev (A ++ a :: B)) :
    next a = B.head? :=
  (h.links A a B rfl).1

lemma prev_of_eq_append {A B : List α} {a : α} (h : Linked next prev (A ++ a :: B)) :
    prev a = A.getLast? :=
  (h.links A a B rfl).2

/-- A node of `A ++ B` stands in `A` or in `B`. -/
lemma append_eq_append_cons {A B A' B' : List α} {x : α} (h : A ++ B = A' ++ x :: B') :
    (∃ C, A' = A ++ C ∧ B = C ++ x :: B') ∨ ∃ C, A = A' ++ x :: C ∧ B' = C ++ B := by
  obtain ⟨C, hA, hB⟩ | ⟨C, hA, hB⟩ := List.append_eq_append_iff.1 h
  · exact Or.inl ⟨C, hA, hB⟩
  · cases C with
    | nil => exact Or.inl ⟨[], by simpa using hA.symm, by simpa using hB.symm⟩
    | cons y C =>
      obtain ⟨rfl, rfl⟩ := List.cons.inj hB
      exact Or.inr ⟨C, hA, rfl⟩

/-- Read from the end, the chain is linked the other way round. -/
lemma reverse (h : Linked next prev l) : Linked prev next l.reverse := by
  refine ⟨List.nodup_reverse.2 h.nodup, fun A a B hl => ?_⟩
  have hl' : l = B.reverse ++ a :: A.reverse := by
    rw [← List.reverse_reverse l, hl]
    simp
  obtain ⟨hn, hp⟩ := h.links _ _ _ hl'
  rw [hn, hp]
  simp

variable [DecidableEq α]

/-- Set the link of the node that `o` points to, if any. -/
def setAt (link : α → Option α) (o : Option α) (v : Option α) : α → Option α :=
  fun x => if o = some x then v else link x

lemma setAt_none (link : α → Option α) (v : Option α) : setAt link none v = link := by
  funext x
  simp [setAt]

lemma setAt_some (link : α → Option α) (a : α) (v : Option α) :
    setAt link (some a) v = Function.update link a v := by
  funext x
  by_cases hx : x = a
  · simp [setAt, hx]
  · simp [setAt, hx, Ne.symm hx]

/-- Unlinking a node: its neighbours are made to name each other. -/
lemma unlink {A B : List α} {a : α} (h : Linked next prev (A ++ a :: B)) :
    Linked (setAt next (prev a) (next a)) (setAt prev (next a) (prev a)) (A ++ B) := by
  rw [h.next_of_eq_append, h.prev_of_eq_append]
  have hnd := h.nodup
  refine ⟨hnd.sublist ((List.sublist_cons_self a B).append_left A), fun A' x B' hl => ?_⟩
  obtain ⟨C, rfl, rfl⟩ | ⟨C, rfl, rfl⟩ := append_eq_append_cons hl
  · -- `x` stands behind the removed node
    obtain ⟨hn, hp⟩ := h.links (A ++ a :: C) x B' (by simp)
    have hlast : A.getLast? ≠ some x := fun hx => by
      have := List.mem_of_getLast? hx
      simp only [List.nodup_append] at hnd
      exact hnd.2.2 x this x (by simp) rfl
    refine ⟨by simp [setAt, hlast, hn], ?_⟩
    cases C with
    | nil => simp [setAt]
    | cons y C =>
      have hyx : y ≠ x := by
        rintro rfl
        simp [List.nodup_append] at hnd
      simp [setAt, hyx, hp]
  · -- `x` stands before the removed node
    obtain ⟨hn, hp⟩ := h.links A' x (C ++ a :: B) (by simp)
    have hhead : B.head? ≠ some x := fun hx => by
      have := List.mem_of_head? hx
      simp only [List.nodup_append] at hnd
      exact hnd.2.2 x (by simp) x (by simp [this]) rfl
    refine ⟨?_, by simp [setAt, hhead, hp]⟩
    obtain rfl | ⟨C, y, rfl⟩ := C.eq_nil_or_concat'
    · simp [setAt]
    · have hyx : y ≠ x := by
        rintro rfl
        simp [List.nodup_append] at hnd
      have hlast : (A' ++ x :: (C ++ [y])).getLast? = some y := by
        rw [← List.cons_append, ← List.append_assoc, List.getLast?_concat]
      have hyx' : some y ≠ some x := fun h => hyx (Option.some.inj h)
      rw [setAt, hlast, if_neg hyx', hn]
      cases C <;> simp

/-- Appending a node: the old last node is made to name it. -/
lemma concat {a : α} (h : Linked next prev l) (ha : a ∉ l) :
    Linked (setAt (Function.update next a none) l.getLast? (some a))
      (Function.update prev a l.getLast?) (l ++ [a]) := by
  refine ⟨List.nodup_append.2 ⟨h.nodup, by simp, by
    rintro x hx y hy rfl
    exact ha (by simpa using List.mem_singleton.1 hy ▸ hx)⟩, fun A x B hl => ?_⟩
  obtain ⟨C, rfl, hC⟩ | ⟨C, rfl, rfl⟩ := append_eq_append_cons hl
  · -- the new node
    obtain ⟨rfl, rfl, rfl⟩ : C = [] ∧ a = x ∧ B = [] := by
      cases C <;> simp_all
    have hlast : l.getLast? ≠ some a := fun hx => ha (List.mem_of_getLast? hx)
    simp [setAt, hlast]
  · obtain ⟨hn, hp⟩ := h.links A x C rfl
    have hxa : x ≠ a := by
      rintro rfl
      simp at ha
    refine ⟨?_, by simp [hxa, hp]⟩
    obtain rfl | ⟨C, y, rfl⟩ := C.eq_nil_or_concat'
    · simp [setAt]
    · have hyx : y ≠ x := by
        rintro rfl
        have := h.nodup
        simp [List.nodup_append] at this
      have hlast : (A ++ x :: (C ++ [y])).getLast? = some y := by
        rw [← List.cons_append, ← List.append_assoc, List.getLast?_concat]
      have hyx' : some y ≠ some x := fun h => hyx (Option.some.inj h)
      rw [setAt, hlast, if_neg hyx', Function.update_of_ne hxa, hn]
      cases C <;> simp

/-- Prepending a node: the old first node is made to name it. -/
lemma cons {a : α} (h : Linked next prev l) (ha : a ∉ l) :
    Linked (Function.update next a l.head?) (setAt (Function.update prev a none) l.head? (some a))
      (a :: l) := by
  refine ⟨List.nodup_cons.2 ⟨ha, h.nodup⟩, fun A x B hl => ?_⟩
  cases A with
  | nil =>
    obtain ⟨rfl, rfl⟩ := List.cons.inj hl
    have hhead : l.head? ≠ some a := fun hx => ha (List.mem_of_head? hx)
    simp [setAt, hhead]
  | cons y A =>
    obtain ⟨rfl, rfl⟩ := List.cons.inj hl
    obtain ⟨hn, hp⟩ := h.links A x B rfl
    have hxa : x ≠ a := by
      rintro rfl
      simp at ha
    refine ⟨by simp [hxa, hn], ?_⟩
    cases A with
    | nil => simp [setAt]
    | cons z A =>
      have hzx : z ≠ x := by
        rintro rfl
        have := h.nodup
        simp at this
      simp [setAt, hzx, hxa, hp]

end Linked
