import Mathlib.Tactic.TypeStar

/-!
# Purging hidden inputs

A system takes its inputs one after the other, and part of its state is looked at through a
`view`. Some inputs are `hidden`. If a hidden input never changes the view, and what any input
does to the view depends on the view alone, then the view after a sequence of inputs is the view
after the sequence with its hidden inputs left out.
-/

namespace Purge

variable {σ ℓ τ : Type*} {step : σ → ℓ → σ} {view : σ → τ} {hidden : ℓ → Bool}

/-- The two unwinding conditions. -/
structure Unwinding (step : σ → ℓ → σ) (view : σ → τ) (hidden : ℓ → Bool) : Prop where
  /-- A hidden input does not show. -/
  respects : ∀ s l, hidden l = true → view (step s l) = view s
  /-- States that look alike still do after the same input. -/
  consistent : ∀ s s' l, view s = view s' → view (step s l) = view (step s' l)

/-- Hidden inputs can be left out. Induction on the inputs, from two states that look alike:
after a hidden input they still do, with one run a step ahead of the other. -/
theorem Unwinding.view_run (h : Unwinding step view hidden) {s s' : σ} (hview : view s = view s')
    (ls : List ℓ) :
    view (ls.foldl step s) = view ((ls.filter fun l => !hidden l).foldl step s') := by
  induction ls generalizing s s' with
  | nil => exact hview
  | cons l ls ih =>
    cases hl : hidden l with
    | true =>
      rw [List.filter_cons_of_neg (by simp [hl]), List.foldl_cons]
      exact ih ((h.respects s l hl).trans hview)
    | false =>
      rw [List.filter_cons_of_pos (by simp [hl]), List.foldl_cons, List.foldl_cons]
      exact ih (h.consistent s s' l hview)

end Purge
