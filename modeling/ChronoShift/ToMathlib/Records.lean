import Mathlib.Data.List.Basic
import Mathlib.Order.Basic

/-!
# Records of a sequence

The items of a sequence whose rank is higher than that of everything before them. A receiver that
remembers the highest rank it has accepted, and accepts higher ones only, accepts the records.

* `records_append`: the records of two parts;
* `records_of_increasing`: of an increasing sequence, all that rank higher than what came before it;
* `records_flatten`: of sequences that each increase, those that rank higher than the sequences
  before.
-/

namespace ToMathlib

variable {α β : Type*} [LT β] [DecidableRel (fun a b : β => a < b)]

/-- The items of a list that rank higher than everything before them. What is in `seen` came before
the list. -/
def records (rank : α → β) : List α → List α → List α
  | _, [] => []
  | seen, a :: l =>
    if ∀ b ∈ seen, rank b < rank a then a :: records rank (a :: seen) l
    else records rank (a :: seen) l

/-- The items of each list that rank higher than everything in `seen` and in the lists before. -/
def aboveEarlier (rank : α → β) : List α → List (List α) → List α
  | _, [] => []
  | seen, l :: ls =>
    l.filter (fun a => ∀ b ∈ seen, rank b < rank a) ++ aboveEarlier rank (seen ++ l) ls

variable {rank : α → β} {seen seen' l : List α}

/-- The order of what came before does not matter. -/
theorem records_congr (h : ∀ b, b ∈ seen ↔ b ∈ seen') (l : List α) :
    records rank seen l = records rank seen' l := by
  induction l generalizing seen seen' with
  | nil => rfl
  | cons a l ih =>
    have hcons : ∀ b, b ∈ a :: seen ↔ b ∈ a :: seen' := fun b => by
      rw [List.mem_cons, List.mem_cons, h b]
    simp only [records, h, ih hcons]

/-- What comes first counts as seen for what follows. -/
theorem records_append (seen l l' : List α) :
    records rank seen (l ++ l') = records rank seen l ++ records rank (seen ++ l) l' := by
  induction l generalizing seen with
  | nil => rw [List.nil_append, List.append_nil, records, List.nil_append]
  | cons a l ih =>
    have hmove : records rank (a :: seen ++ l) l' = records rank (seen ++ a :: l) l' :=
      records_congr (fun b => List.perm_middle.symm.mem_iff) l'
    rw [List.cons_append, records, records, ih, hmove]
    split <;> rfl

/-- What comes first in an increasing sequence hides nothing of it. -/
theorem records_of_increasing (hl : l.Pairwise fun a b => rank a < rank b) (seen : List α) :
    records rank seen l = l.filter fun a => ∀ b ∈ seen, rank b < rank a := by
  induction l generalizing seen with
  | nil => rfl
  | cons a l ih =>
    obtain ⟨ha, hl⟩ := List.pairwise_cons.mp hl
    have hrest : records rank (a :: seen) l = l.filter fun c => ∀ b ∈ seen, rank b < rank c := by
      rw [ih hl]
      refine List.filter_congr fun c hc => decide_eq_decide.mpr ?_
      rw [List.forall_mem_cons, and_iff_right (ha c hc)]
    rw [records, hrest, List.filter_cons]
    simp only [decide_eq_true_iff]

/-- In increasing lists an item is a record if it exceeds what was seen before its list. -/
theorem records_flatten {ls : List (List α)}
    (hls : ∀ l ∈ ls, l.Pairwise fun a b => rank a < rank b) (seen : List α) :
    records rank seen ls.flatten = aboveEarlier rank seen ls := by
  induction ls generalizing seen with
  | nil => rfl
  | cons l ls ih =>
    obtain ⟨hl, hls⟩ := List.forall_mem_cons.mp hls
    rw [List.flatten_cons, records_append, records_of_increasing hl, ih hls, aboveEarlier]

end ToMathlib
