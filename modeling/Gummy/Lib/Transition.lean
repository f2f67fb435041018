import Mathlib.Data.Nat.Notation
import Mathlib.Logic.Relation

/-!
Transition systems with labelled steps.

A system is a set of initial states and a step relation that carries a label.
`Reachable.invariant` is the induction principle of every safety proof: what
holds initially and is kept by each step holds of every reachable state.
`restrict` keeps the steps that meet a condition on the state before the step
and the label; a property of the reachable states of the restricted system is a
property of the runs all of whose steps meet the condition.  `Run` keeps the labels of a run,
for properties that count them.
-/

namespace Transition

variable {σ ε : Type*}

/-- The states reachable from `init` by finitely many steps. -/
inductive Reachable (init : σ → Prop) (step : σ → ε → σ → Prop) : σ → Prop
  | start {s : σ} (h : init s) : Reachable init step s
  | next {s s' : σ} (e : ε) (hs : Reachable init step s) (h : step s e s') :
      Reachable init step s'

/-- The steps of `step` whose pre-state and label meet `cond`. -/
def restrict (step : σ → ε → σ → Prop) (cond : σ → ε → Prop) : σ → ε → σ → Prop :=
  fun s e s' => step s e s' ∧ cond s e

namespace Reachable

variable {init : σ → Prop} {step : σ → ε → σ → Prop}

theorem invariant {P : σ → Prop} (hinit : ∀ s, init s → P s)
    (hstep : ∀ s e s', P s → step s e s' → P s') {s : σ} (h : Reachable init step s) : P s := by
  induction h with
  | start h => exact hinit _ h
  | next e _ h ih => exact hstep _ e _ ih h

/-- More steps reach more states. -/
theorem mono {step' : σ → ε → σ → Prop} (hstep : ∀ s e s', step s e s' → step' s e s') {s : σ}
    (h : Reachable init step s) : Reachable init step' s := by
  induction h with
  | start h => exact .start h
  | next e _ h ih => exact .next e ih (hstep _ _ _ h)

end Reachable

/-- A run from the state `s`, with the labels of its steps. -/
inductive Run (step : σ → ε → σ → Prop) (s : σ) : List ε → σ → Prop
  | nil : Run step s [] s
  | snoc {l : List ε} {s' s'' : σ} {e : ε} (h : Run step s l s') (hs : step s' e s'') :
      Run step s (l ++ [e]) s''

/-- What holds at the start of a run and is kept by each step, for the labels so far, holds at
its end. -/
theorem Run.invariant {step : σ → ε → σ → Prop} {s : σ} {P : List ε → σ → Prop} (hs : P [] s)
    (hstep : ∀ l s' e s'', P l s' → step s' e s'' → P (l ++ [e]) s'') {l : List ε} {s' : σ}
    (h : Run step s l s') : P l s' := by
  induction h with
  | nil => exact hs
  | snoc _ h ih => exact hstep _ _ _ _ ih h

theorem Run.mono {step step' : σ → ε → σ → Prop} (hstep : ∀ s e s', step s e s' → step' s e s')
    {s : σ} {l : List ε} {s' : σ} (h : Run step s l s') : Run step' s l s' := by
  induction h with
  | nil => exact .nil
  | snoc _ hs ih => exact ih.snoc (hstep _ _ _ hs)

end Transition
