import Mathlib.Data.List.Infix

/-!
# Receiving in order

A receiver waits for the items of a list one after the other, and skips whatever else it is shown.

* `le_length_inOrder_iff`: it has received the first `k` items exactly if they are a subsequence of
  what it was shown, so waiting for the next item loses nothing.
-/

namespace ToMathlib

variable {α : Type*} [DecidableEq α]

/-- What is received of `expected` when `shown` is presented item by item. -/
def inOrder : List α → List α → List α
  | _, [] => []
  | [], _ :: _ => []
  | e :: expected, s :: shown =>
    if s = e then e :: inOrder expected shown else inOrder (e :: expected) shown

/-- Nothing is expected any more. -/
@[simp]
theorem inOrder_nil_left (shown : List α) : inOrder [] shown = [] := by
  cases shown <;> rfl

/-- Nothing is shown any more. -/
@[simp]
theorem inOrder_nil_right (expected : List α) : inOrder expected [] = [] := by
  rw [inOrder]

/-- What is expected next and shown next counts. -/
theorem inOrder_cons_self (e : α) (expected shown : List α) :
    inOrder (e :: expected) (e :: shown) = e :: inOrder expected shown := by
  rw [inOrder, if_pos rfl]

/-- An item that is not waited for is skipped. -/
theorem inOrder_cons_of_ne {expected : List α} {s : α} (h : expected.head? ≠ some s)
    (shown : List α) : inOrder expected (s :: shown) = inOrder expected shown := by
  cases expected with
  | nil => rw [inOrder_nil_left, inOrder_nil_left]
  | cons e expected => rw [inOrder, if_neg fun hs => h (congrArg some hs.symm)]

/-- The receiver gets as far as any receiver can that takes the items in their order. -/
theorem le_length_inOrder_iff {expected shown : List α} {k : ℕ} (hk : k ≤ expected.length) :
    k ≤ (inOrder expected shown).length ↔ (expected.take k).Sublist shown := by
  induction shown generalizing expected k with
  | nil =>
    have hnil : (expected.take k).Sublist [] ↔ k = 0 := by
      rw [List.sublist_nil, ← List.length_eq_zero_iff, List.length_take_of_le hk]
    rw [inOrder_nil_right, hnil, List.length_nil, Nat.le_zero]
  | cons s shown ih =>
    cases expected with
    | nil => simp_all
    | cons e expected =>
      cases k with
      | zero => simp
      | succ k =>
        have hk' : k ≤ expected.length := Nat.le_of_succ_le_succ hk
        rw [inOrder, List.take_succ_cons]
        by_cases hs : s = e
        · subst hs
          rw [if_pos rfl, List.length_cons, Nat.succ_le_succ_iff, ih hk', List.cons_sublist_cons]
        · have hskip : (e :: expected.take k).Sublist (s :: shown) ↔
              (e :: expected.take k).Sublist shown := by
            rw [List.sublist_cons_iff]
            refine or_iff_left ?_
            rintro ⟨r, hr, -⟩
            exact hs (List.cons.inj hr).1.symm
          rw [if_neg hs, ih hk, List.take_succ_cons, hskip]

end ToMathlib
