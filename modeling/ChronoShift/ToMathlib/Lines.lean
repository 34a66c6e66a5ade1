import Mathlib.Data.List.Basic

/-!
# Lines of a text

Splitting a list at a separator, as a buffered reader does: every line but the last one is
terminated by the separator, and an empty unterminated line at the end does not count.

* `rawLines_append_cons`, `rawLines_of_notMem`: the first line, and a text without separators;
* `length_splitOn`: into how many parts a list is split.
-/

namespace ToMathlib

variable {α : Type*} [DecidableEq α] (sep : α)

/-- The lines of a text, each with whether it is terminated. -/
def rawLines : List α → List (List α × Bool)
  | [] => []
  | a :: rest =>
    if a = sep then ([], true) :: rawLines rest
    else
      -- `a` starts the first line of the rest, or is the last, unterminated line itself
      match rawLines rest with
      | [] => [([a], false)]
      | (line, terminated) :: lines => (a :: line, terminated) :: lines

variable {sep}

/-- The first line ends at the first separator. -/
theorem rawLines_append_cons {line : List α} (h : sep ∉ line) (rest : List α) :
    rawLines sep (line ++ sep :: rest) = (line, true) :: rawLines sep rest := by
  induction line with
  | nil => simp [rawLines]
  | cons a line ih =>
    rw [List.mem_cons, not_or] at h
    rw [List.cons_append, rawLines, if_neg (Ne.symm h.1), ih h.2]

/-- A text without separators is one line. -/
theorem rawLines_of_notMem {line : List α} (h : sep ∉ line) (hne : line ≠ []) :
    rawLines sep line = [(line, false)] := by
  induction line with
  | nil => exact absurd rfl hne
  | cons a line ih =>
    rw [List.mem_cons, not_or] at h
    rw [rawLines, if_neg (Ne.symm h.1)]
    by_cases hline : line = []
    · rw [hline]
      rfl
    · rw [ih h.2 hline]

/-- Every separator begins a new part. -/
theorem length_splitOn (sep : α) (l : List α) : (l.splitOn sep).length = l.count sep + 1 := by
  induction l with
  | nil => rfl
  | cons a l ih =>
    rw [List.splitOn_cons_eq_if_modifyHead, List.count_cons]
    split
    · rw [List.length_cons, ih]
    · rw [List.length_modifyHead, ih, Nat.add_zero]

end ToMathlib
