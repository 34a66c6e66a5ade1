import Mathlib.Data.List.Induction

/-!
# Folds of overwriting steps

Steps that overwrite: doing a step a second time, at once or after another step, makes its first
time irrelevant. A list of such steps has the same effect when it is carried out twice.
-/

namespace ToMathlib

variable {α ι : Type*}

/-- Repeating a step makes its first time irrelevant. -/
structure Overwriting (step : α → ι → α) : Prop where
  idem : ∀ a i, step (step a i) i = step a i
  absorb : ∀ a i j, step (step (step a i) j) i = step (step a j) i

namespace Overwriting

variable {step : α → ι → α}

/-- The last of several steps makes an earlier occurrence of it irrelevant. -/
theorem step_foldl_step (h : Overwriting step) (a : α) (i : ι) (l : List ι) :
    step (l.foldl step (step a i)) i = step (l.foldl step a) i := by
  induction l generalizing a with
  | nil => exact h.idem a i
  | cons j l ih =>
    -- put a further `i` behind `j`, let it absorb the first one, and take it out again
    calc step (l.foldl step (step (step a i) j)) i
        = step (l.foldl step (step (step (step a i) j) i)) i := (ih _).symm
      _ = step (l.foldl step (step (step a j) i)) i := by rw [h.absorb]
      _ = step (l.foldl step (step a j)) i := ih _

/-- Carrying out a list of overwriting steps twice is carrying it out once. -/
theorem foldl_foldl (h : Overwriting step) (a : α) (l : List ι) :
    l.foldl step (l.foldl step a) = l.foldl step a := by
  -- the last step absorbs its first occurrence, and the steps before it are idempotent
  induction l using List.reverseRecOn with
  | nil => rfl
  | append_singleton l i ih =>
    simp only [List.foldl_append, List.foldl_cons, List.foldl_nil]
    rw [h.step_foldl_step, ih]

end Overwriting

end ToMathlib
