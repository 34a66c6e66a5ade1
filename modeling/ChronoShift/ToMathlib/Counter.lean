import Mathlib.Data.List.Basic
import Mathlib.Order.Nat

/-!
# Counters that move by one

A counter that only its successor moves: any other number leaves it where it is. It has passed a
number exactly if all numbers up to it have come by in order.
-/

namespace ToMathlib

/-- A counter that is shown a number. -/
def advance (count n : ℕ) : ℕ := if n = count + 1 then n else count

/-- A counter does not go back. -/
theorem le_advance (count n : ℕ) : count ≤ advance count n := by
  unfold advance
  split <;> omega

/-- A counter does not go back over several steps. -/
theorem le_foldl_advance (count : ℕ) (l : List ℕ) : count ≤ l.foldl advance count := by
  induction l generalizing count with
  | nil => exact le_rfl
  | cons n l ih => exact (le_advance count n).trans (ih _)

/-- The counter has moved by `d` if and only if the next `d` numbers occur in order. -/
theorem add_le_foldl_advance_iff (count d : ℕ) (l : List ℕ) :
    count + d ≤ l.foldl advance count ↔ (List.range' (count + 1) d).Sublist l := by
  induction l generalizing count d with
  | nil =>
    rw [List.foldl_nil, List.sublist_nil, List.range'_eq_nil_iff]
    omega
  | cons n l ih =>
    cases d with
    | zero => exact iff_of_true (le_foldl_advance count _) (List.nil_sublist _)
    | succ d =>
      rw [List.foldl_cons, List.range'_succ]
      by_cases hn : n = count + 1
      -- the first of the numbers has come, and the others are still to come
      · subst hn
        rw [advance, if_pos rfl, List.cons_sublist_cons, ← ih]
        omega
      · rw [advance, if_neg hn, ih, List.range'_succ, List.cons_sublist_cons']
        simp [Ne.symm hn]

/-- The counter stands at `n` if and only if the numbers up to `n` have come in order, and its
successor has not come after them. -/
theorem foldl_advance_eq_iff {count n : ℕ} (h : count ≤ n) (l : List ℕ) :
    l.foldl advance count = n ↔
      (List.range' (count + 1) (n - count)).Sublist l ∧
        ¬ (List.range' (count + 1) (n - count + 1)).Sublist l := by
  rw [← add_le_foldl_advance_iff, ← add_le_foldl_advance_iff]
  omega

end ToMathlib
