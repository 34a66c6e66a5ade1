import Mathlib.Data.List.Basic
import Mathlib.Tactic.Common

/-!
# Streams in pieces

A network delivers a stream in pieces, cut wherever it likes. A single read returns what the next
piece holds, up to the size of the buffer, so that it depends on the cuts. Reads that go on until
the buffer is full do not.

* `readSome_append`: a single read takes a part of the stream off its front;
* `readExact_append`: reads that fill a buffer take what was sent, however it was cut.
-/

namespace ToMathlib

variable {α : Type*} {p : List α} {pieces sent : List (List α)}

/-- What is left of a piece goes back in front of the others. -/
def pushPiece (p : List α) (pieces : List (List α)) : List (List α) :=
  match p with
  | [] => pieces
  | _ :: _ => p :: pieces

/-- A single read into a buffer of `n` items. At the end of the stream nothing is read. -/
def readSome (n : ℕ) : List (List α) → List α × List (List α)
  | [] => ([], [])
  | p :: pieces => (p.take n, pushPiece (p.drop n) pieces)

/-- Reads that go on until a buffer of `n` items is full. -/
def readExact (n : ℕ) : List (List α) → Option (List α × List (List α))
  | [] => if n = 0 then some ([], []) else none
  | p :: pieces =>
    if n ≤ p.length then some (readSome n (p :: pieces))
    else (readExact (n - p.length) pieces).map fun r => (p ++ r.1, r.2)

/-- An empty piece is not kept, and nothing is lost with it. -/
theorem flatten_pushPiece (p : List α) (pieces : List (List α)) :
    (pushPiece p pieces).flatten = p ++ pieces.flatten := by
  cases p with
  | nil => rfl
  | cons a p => rfl

/-- A piece that is not empty is kept. -/
theorem pushPiece_of_ne_nil (hp : p ≠ []) (pieces : List (List α)) :
    pushPiece p pieces = p :: pieces := by
  cases p with
  | nil => exact absurd rfl hp
  | cons a p => rfl

/-- What a read returns and what it leaves are what was there. -/
theorem readSome_append (n : ℕ) (pieces : List (List α)) :
    (readSome n pieces).1 ++ (readSome n pieces).2.flatten = pieces.flatten := by
  cases pieces with
  | nil => rfl
  | cons p pieces =>
    rw [readSome, flatten_pushPiece, ← List.append_assoc, List.take_append_drop, List.flatten_cons]

/-- To read nothing is to wait for nothing. -/
theorem readExact_zero (hpieces : ∀ p ∈ pieces, p ≠ []) :
    readExact 0 pieces = some ([], pieces) := by
  cases pieces with
  | nil => rfl
  | cons p pieces =>
    rw [readExact, if_pos (Nat.zero_le _), readSome, List.take_zero, List.drop_zero,
      pushPiece_of_ne_nil (hpieces p List.mem_cons_self)]

/-- A buffer of the size of what was sent takes it up, however it was cut. -/
theorem readExact_append (hsent : ∀ p ∈ sent, p ≠ []) (hpieces : ∀ p ∈ pieces, p ≠ []) :
    readExact sent.flatten.length (sent ++ pieces) = some (sent.flatten, pieces) := by
  induction sent with
  | nil => exact readExact_zero hpieces
  | cons p sent ih =>
    obtain ⟨hp, hsent⟩ := List.forall_mem_cons.mp hsent
    have hrest := ih hsent
    rw [List.flatten_cons, List.length_append, List.cons_append, readExact]
    split
    -- the buffer is full with the first piece, so there are no others
    next hfull =>
      obtain rfl : sent = [] := by
        refine List.eq_nil_iff_forall_not_mem.mpr fun q hq => hsent q hq ?_
        have hnil : sent.flatten = [] := List.length_eq_zero_iff.mp (by omega)
        exact List.flatten_eq_nil_iff.mp hnil q hq
      simp [readSome, pushPiece]
    next =>
      rw [Nat.add_sub_cancel_left, hrest]
      rfl

end ToMathlib
