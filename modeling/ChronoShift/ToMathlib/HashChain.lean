import Mathlib.Data.List.Induction

/-!
# Hash chains

A chain hashes the last value together with the next item. If the hash has no collision among the
inputs that occur, and never returns to the start, the last value determines all items.

* `foldl_eq_foldl_iff`: two chains from one start end in the same value exactly if they are over
  the same items.
-/

namespace ToMathlib

variable {α β : Type*} {f : β → α → β} {b : β}

/-- The inputs that are hashed along a chain. -/
def chainInputs (f : β → α → β) : β → List α → List (β × α)
  | _, [] => []
  | b, a :: l => (b, a) :: chainInputs f (f b a) l

/-- The inputs of a chain that goes on from the end of another one. -/
theorem chainInputs_append (l l' : List α) :
    chainInputs f b (l ++ l') = chainInputs f b l ++ chainInputs f (l.foldl f b) l' := by
  induction l generalizing b with
  | nil => rfl
  | cons a l ih => exact congrArg ((b, a) :: ·) ih

/-- No two inputs have the same hash, and none has the hash `b`. -/
structure NoCollision (f : β → α → β) (b : β) (inputs : List (β × α)) : Prop where
  inj : ∀ x ∈ inputs, ∀ y ∈ inputs, f x.1 x.2 = f y.1 y.2 → x = y
  start : ∀ x ∈ inputs, f x.1 x.2 ≠ b

/-- Fewer inputs collide less. -/
theorem NoCollision.mono {inputs inputs' : List (β × α)} (h : NoCollision f b inputs)
    (hsub : inputs' ⊆ inputs) : NoCollision f b inputs' :=
  ⟨fun x hx y hy => h.inj x (hsub hx) y (hsub hy), fun x hx => h.start x (hsub hx)⟩

/-- A chain with at least one item does not end at its start. -/
theorem foldl_append_ne_start {l : List α} {a : α}
    (h : NoCollision f b (chainInputs f b (l ++ [a]))) : (l ++ [a]).foldl f b ≠ b := by
  rw [List.foldl_append]
  refine h.start (l.foldl f b, a) ?_
  rw [chainInputs_append]
  exact List.mem_append_right _ List.mem_cons_self

/-- A chain commits to what has entered it. -/
theorem foldl_eq_foldl_iff {l l' : List α}
    (h : NoCollision f b (chainInputs f b l ++ chainInputs f b l')) :
    l.foldl f b = l'.foldl f b ↔ l = l' := by
  refine ⟨?_, congrArg (List.foldl f b)⟩
  intro heq
  induction l using List.reverseRecOn generalizing l' with
  | nil =>
    cases l' using List.reverseRecOn with
    | nil => rfl
    | append_singleton l' a' =>
      exact absurd heq.symm (foldl_append_ne_start (h.mono (List.subset_append_right _ _)))
  | append_singleton l a ih =>
    cases l' using List.reverseRecOn with
    | nil => exact absurd heq (foldl_append_ne_start (h.mono (List.subset_append_left _ _)))
    | append_singleton l' a' =>
      rw [chainInputs_append, chainInputs_append] at h
      -- the last inputs have the same hash, so the items and the values before them agree
      have hlast : (l.foldl f b, a) = (l'.foldl f b, a') := by
        rw [List.foldl_append, List.foldl_append] at heq
        refine h.inj _ ?_ _ ?_ heq
        · exact List.mem_append_left _ (List.mem_append_right _ List.mem_cons_self)
        · exact List.mem_append_right _ (List.mem_append_right _ List.mem_cons_self)
      obtain ⟨hvalue, rfl⟩ := Prod.mk.inj hlast
      have hsub : chainInputs f b l ++ chainInputs f b l' ⊆
          chainInputs f b l ++ chainInputs f (l.foldl f b) [a] ++
            (chainInputs f b l' ++ chainInputs f (l'.foldl f b) [a]) :=
        List.append_subset.mpr
          ⟨fun x hx => List.mem_append_left _ (List.mem_append_left _ hx),
            fun x hx => List.mem_append_right _ (List.mem_append_left _ hx)⟩
      rw [ih (h.mono hsub) hvalue]

end ToMathlib
