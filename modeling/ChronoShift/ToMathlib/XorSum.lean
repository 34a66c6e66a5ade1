import Mathlib.Data.LawfulXor.Basic
import Mathlib.Algebra.BigOperators.Group.Finset.Basic
import Mathlib.Algebra.BigOperators.Group.Finset.Sigma
import Mathlib.Algebra.Group.Pi.Basic
import Mathlib.Algebra.Ring.Parity

/-!
# Exclusive-or sums of zero-extended words

A lawful exclusive or makes its carrier an abelian group in which every element is its own
inverse. This file packages that group as `XorGroup α`, reads a list over `α` as the
zero-extended word `zeroExt l : ℕ → XorGroup α`, and proves the cancellation law of pairwise
masks:

* `zeroExt_inj_of_length`: words of one length are determined by their zero extension;
* `sum_sum_erase_eq_zero`: if every unordered pair of members shares one mask, the masks of
  all members sum to zero;
* `sum_map_filter_ne`: the sum over a duplicate-free list without one entry, as a finset sum;
* `sum_map_eq_sum_toFinset_iff`: when repeated entries of a list do not change its sum;
* `sum_map_modify`: the sum over a list after one of its entries has changed.
-/

namespace ToMathlib

/-- The carrier `α`, written additively with exclusive or as addition. -/
def XorGroup (α : Type*) := α

namespace XorGroup

variable {α : Type*} [Zero α]

instance : Zero (XorGroup α) := ⟨(0 : α)⟩

variable [XorOp α] [LawfulXor α]

instance : Add (XorGroup α) := ⟨XorOp.xor (α := α)⟩

instance : Neg (XorGroup α) := ⟨id⟩

instance : AddCommGroup (XorGroup α) where
  add_assoc := LawfulXor.xor_assoc (α := α)
  add_comm := LawfulXor.xor_comm (α := α)
  zero_add := zero_xor (α := α)
  add_zero := LawfulXor.xor_zero (α := α)
  neg_add_cancel := LawfulXor.xor_self (α := α)
  nsmul := nsmulRec
  zsmul := zsmulRec

/-- Every element of the exclusive-or group is its own inverse. -/
theorem add_self (x : XorGroup α) : x + x = 0 :=
  LawfulXor.xor_self (α := α) x

end XorGroup

section ZeroExt

variable {α : Type*} [Zero α]

/-- The word `l`, continued by zeros. -/
def zeroExt (l : List α) : ℕ → XorGroup α := fun i => l.getD i 0

/-- Two words of one length are equal once their zero extensions are. -/
theorem zeroExt_inj_of_length {l l' : List α} (hlen : l.length = l'.length)
    (h : zeroExt l = zeroExt l') : l = l' := by
  refine List.ext_getElem hlen fun i h₁ h₂ => ?_
  have hi : l.getD i 0 = l'.getD i 0 := congrFun h i
  rwa [List.getD_eq_getElem?_getD, List.getD_eq_getElem?_getD, List.getElem?_eq_getElem h₁,
    List.getElem?_eq_getElem h₂, Option.getD_some, Option.getD_some] at hi

/-- A word of zeros extends to the zero of the group. -/
@[simp]
theorem zeroExt_replicate_zero (n : ℕ) : zeroExt (List.replicate n (0 : α)) = 0 := by
  funext i
  show (List.replicate n (0 : α)).getD i 0 = 0
  rw [List.getD_eq_getElem?_getD, List.getElem?_replicate]
  split <;> rfl

/-- Every zero-extended word is its own inverse. -/
theorem word_add_self [XorOp α] [LawfulXor α] (f : ℕ → XorGroup α) : f + f = 0 :=
  funext fun i => XorGroup.add_self (α := α) (f i)

end ZeroExt

section Pairwise

variable {ι G : Type*} [DecidableEq ι] [AddCommGroup G]

/-- Pairwise masks cancel: in a group of exponent two, if member `i` uses for `j` the mask
that `j` uses for `i`, then the masks of all members of `s` sum to zero. -/
theorem sum_sum_erase_eq_zero (h2 : ∀ x : G, x + x = 0) (s : Finset ι) (f : ι → ι → G)
    (hsym : ∀ i ∈ s, ∀ j ∈ s, i ≠ j → f i j = f j i) :
    ∑ i ∈ s, ∑ j ∈ s.erase i, f i j = 0 := by
  rw [Finset.sum_sigma']
  -- the ordered pairs `(i, j)` and `(j, i)` cancel
  refine Finset.sum_involution (fun p _ => ⟨p.2, p.1⟩) ?_ ?_ ?_ ?_
  · rintro ⟨i, j⟩ hp
    simp only [Finset.mem_sigma, Finset.mem_erase] at hp
    obtain ⟨hi, hne, hj⟩ := hp
    rw [hsym i hi j hj (Ne.symm hne)]
    exact h2 _
  · rintro ⟨i, j⟩ hp - heq
    simp only [Finset.mem_sigma, Finset.mem_erase] at hp
    exact hp.2.1 (congrArg Sigma.fst heq)
  · rintro ⟨i, j⟩ hp
    simp only [Finset.mem_sigma, Finset.mem_erase] at hp ⊢
    exact ⟨hp.2.2, Ne.symm hp.2.1, hp.1⟩
  · rintro ⟨i, j⟩ _
    rfl

/-- Summing over a duplicate-free list without the entry `i` is summing over the finset of
its entries without `i`. -/
theorem sum_map_filter_ne {l : List ι} (hl : l.Nodup) (i : ι) (f : ι → G) :
    ((l.filter (· ≠ i)).map f).sum = ∑ j ∈ l.toFinset.erase i, f j := by
  rw [← List.sum_toFinset f (hl.filter _)]
  congr 1
  ext j
  simp [and_comm]

end Pairwise

section Multiplicity

variable {ι G : Type*} [DecidableEq ι] [AddCommGroup G]

/-- A term that is added `n` times is there once, or not at all. -/
theorem nsmul_of_add_self (h2 : ∀ x : G, x + x = 0) (n : ℕ) (x : G) :
    n • x = if Odd n then x else 0 := by
  rcases Nat.even_or_odd n with ⟨k, rfl⟩ | ⟨k, rfl⟩
  · rw [add_nsmul, h2, if_neg (Nat.not_odd_iff_even.mpr ⟨k, rfl⟩)]
  · rw [add_nsmul, mul_nsmul, two_nsmul, h2, nsmul_zero, zero_add, one_nsmul,
      if_pos ⟨k, rfl⟩]

/-- In a group of exponent two, only the entries that occur an odd number of times count. -/
theorem sum_map_eq_sum_odd (h2 : ∀ x : G, x + x = 0) (l : List ι) (f : ι → G) :
    (l.map f).sum = ∑ i ∈ l.toFinset with ¬ Even (l.count i), f i := by
  rw [Finset.sum_list_map_count, Finset.sum_filter]
  refine Finset.sum_congr rfl fun i _ => ?_
  rw [nsmul_of_add_self h2]
  simp only [Nat.not_even_iff_odd]

/-- In a group of exponent two, the sum over a list is the sum over its entries if and only if the
terms of the entries that occur an even number of times sum to zero. -/
theorem sum_map_eq_sum_toFinset_iff (h2 : ∀ x : G, x + x = 0) (l : List ι) (f : ι → G) :
    (l.map f).sum = ∑ i ∈ l.toFinset, f i ↔ ∑ i ∈ l.toFinset with Even (l.count i), f i = 0 := by
  rw [sum_map_eq_sum_odd h2,
    ← Finset.sum_filter_add_sum_filter_not l.toFinset (fun i => Even (l.count i))]
  exact right_eq_add

end Multiplicity

/-- If a change adds `a` to the value of an entry, it adds `a` to the sum. -/
theorem sum_map_modify {α G : Type*} [AddCommMonoid G] (f : α → G) {change : α → α} {a : G}
    (hchange : ∀ x, f (change x) = f x + a) {l : List α} {i : ℕ} (hi : i < l.length) :
    ((l.modify i change).map f).sum = (l.map f).sum + a := by
  induction l generalizing i with
  | nil => exact absurd hi (Nat.not_lt_zero i)
  | cons x l ih =>
    cases i with
    | zero =>
      rw [List.modify_zero_cons, List.map_cons, List.sum_cons, hchange, List.map_cons,
        List.sum_cons, add_right_comm]
    | succ i =>
      rw [List.modify_succ_cons, List.map_cons, List.sum_cons, ih (Nat.lt_of_succ_lt_succ hi),
        List.map_cons, List.sum_cons, add_assoc]

end ToMathlib
