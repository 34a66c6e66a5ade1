import Mathlib.Order.Basic

/-!
# Properties of all states of a run

A run is a list of steps from a state. A property of states holds all along a run exactly if every
step meets a condition, when this is so for every single step.
-/

namespace ToMathlib

variable {σ ι : Type*}

/-- The property holds in every state of the run. -/
def AllStates (step : σ → ι → σ) (P : σ → Prop) : σ → List ι → Prop
  | s, [] => P s
  | s, i :: l => P s ∧ AllStates step P (step s i) l

/-- Every step of the run meets the condition, in the state in which it is taken. -/
def AllSteps (step : σ → ι → σ) (ok : σ → ι → Prop) : σ → List ι → Prop
  | _, [] => True
  | s, i :: l => ok s i ∧ AllSteps step ok (step s i) l

variable {step : σ → ι → σ} {P : σ → Prop} {ok : σ → ι → Prop} {s : σ} {l : List ι}

/-- The first state is among all states. -/
theorem AllStates.head (h : AllStates step P s l) : P s := by
  cases l with
  | nil => exact h
  | cons i l => exact h.1

/-- The last state is among all states. -/
theorem AllStates.last (h : AllStates step P s l) : P (l.foldl step s) := by
  induction l generalizing s with
  | nil => exact h
  | cons i l ih => exact ih h.2

/-- A run that goes on from the end of another one. -/
theorem allStates_append {l' : List ι} :
    AllStates step P s (l ++ l') ↔ AllStates step P s l ∧ AllStates step P (l.foldl step s) l' := by
  induction l generalizing s with
  | nil => exact ⟨fun h => ⟨h.head, h⟩, fun h => h.2⟩
  | cons i l ih =>
    rw [List.cons_append, AllStates, AllStates, ih, and_assoc]
    rfl

/-- A run with one step more. -/
theorem allStates_concat {i : ι} :
    AllStates step P s (l ++ [i]) ↔ AllStates step P s l ∧ P ((l ++ [i]).foldl step s) := by
  rw [allStates_append, List.foldl_append]
  exact and_congr_right fun h => ⟨fun hlast => hlast.2, fun hi => ⟨h.last, hi⟩⟩

/-- If the condition decides for each step whether the property is kept, it decides for each run.
`J` is what the steps may rely on, of the state and of the steps that are left. -/
theorem allStates_iff_allSteps {J : σ → List ι → Prop}
    (hnext : ∀ s i l, J s (i :: l) → J (step s i) l)
    (hstep : ∀ s i l, J s (i :: l) → P s → (P (step s i) ↔ ok s i)) (hJ : J s l) (hs : P s) :
    AllStates step P s l ↔ AllSteps step ok s l := by
  induction l generalizing s with
  | nil => exact iff_of_true hs trivial
  | cons i l ih =>
    constructor
    · rintro ⟨-, hrest⟩
      exact ⟨(hstep s i l hJ hs).mp hrest.head, (ih (hnext s i l hJ) hrest.head).mp hrest⟩
    · rintro ⟨hok, hrest⟩
      have hs' : P (step s i) := (hstep s i l hJ hs).mpr hok
      exact ⟨hs, (ih (hnext s i l hJ) hs').mpr hrest⟩

end ToMathlib
