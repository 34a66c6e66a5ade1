import Mathlib.Algebra.BigOperators.Group.Finset.Basic
import Mathlib.Algebra.Order.BigOperators.Group.Finset
import Mathlib.Order.Bounds.Basic

/-!
# Chaotic iteration to a least fixed point

A monotone rule `F` gives every index a new value from the values of all indices. `relax` applies
the rule at one index in place; which indices are free to change, and in which order they are
visited, is arbitrary. Starting from an assignment that the rule does not lower, every visit raises
it (`Ascending.le_relax`) and keeps it below every assignment the rule does not raise
(`relax_le`), so a pass that changes nothing has reached the least fixed point.

* `loopUntil_eq_some`: the total-correctness rule of a loop that runs until a pass reports no
  change;
* `Ascending.eq_of_foldl_eq`: after a pass without a change, the rule holds;
* `Approximates.isLeast`: what the passes approximate is the least solution;
* `deficit_lt_of_le_of_ne`: the height that is left, which bounds the number of passes.
-/

namespace ToMathlib

/-! ## Loops -/

section Loop

variable {σ : Type*}

/-- Repeat passes until one of them reports no change. The pass number is passed in, so that every
pass may be a different one; `fuel` bounds the number of passes. -/
def loopUntil (pass : ℕ → σ → σ × Bool) : ℕ → ℕ → σ → Option σ
  | 0, _, _ => none
  | fuel + 1, i, s =>
    match pass i s with
    | (s, false) => some s
    | (s, true) => loopUntil pass fuel (i + 1) s

/-- If a pass keeps the invariant and a pass with a change lowers the measure, the loop ends before
the measure is used up, in a state that some pass has left unchanged. -/
theorem loopUntil_eq_some {pass : ℕ → σ → σ × Bool} {I : σ → Prop} (measure : σ → ℕ)
    (hinv : ∀ i s, I s → I (pass i s).1)
    (hmeasure : ∀ i s, I s → (pass i s).2 = true → measure (pass i s).1 < measure s)
    {s : σ} (hs : I s) {fuel : ℕ} (hfuel : measure s < fuel) (i : ℕ) :
    ∃ s' j s'', loopUntil pass fuel i s = some s' ∧ I s'' ∧ pass j s'' = (s', false) := by
  induction fuel generalizing i s with
  | zero => omega
  | succ fuel ih =>
    have hinv' := hinv i s hs
    have hmeasure' := hmeasure i s hs
    unfold loopUntil
    split
    next s' hpass => exact ⟨s', i, s, rfl, hs, hpass⟩
    next s' hpass =>
      rw [hpass] at hinv' hmeasure'
      have hlt := hmeasure' rfl
      exact ih hinv' (by omega) (i + 1)

/-- Once the loop has ended, more fuel makes no difference. -/
theorem loopUntil_mono {pass : ℕ → σ → σ × Bool} {fuel fuel' i : ℕ} {s r : σ}
    (h : loopUntil pass fuel i s = some r) (hle : fuel ≤ fuel') :
    loopUntil pass fuel' i s = some r := by
  induction fuel generalizing fuel' i s with
  | zero => simp [loopUntil] at h
  | succ fuel ih =>
    obtain ⟨fuel', rfl⟩ :=
      Nat.exists_eq_add_of_le' (Nat.le_trans (Nat.succ_le_succ fuel.zero_le) hle)
    unfold loopUntil at h ⊢
    split at h
    next hpass => exact h
    next hpass => exact ih h (by omega)

end Loop

/-! ## Relaxation -/

section Relax

variable {ι α : Type*} [DecidableEq ι] (F : (ι → α) → ι → α) (free : ι → Prop)
  [DecidablePred free]

/-- Apply the rule at one index, if the index is free. -/
def relax (f : ι → α) (i : ι) : ι → α := if free i then Function.update f i (F f i) else f

variable {F free}

/-- A visit changes the assignment at the index alone. -/
theorem relax_apply (f : ι → α) (i j : ι) :
    relax F free f i j = if j = i ∧ free i then F f i else f j := by
  unfold relax
  by_cases hi : free i
  · rw [if_pos hi, Function.update_apply]
    simp [hi]
  · simp [hi]

/-- An index that is not free keeps its value. -/
theorem foldl_relax_of_not_free {j : ι} (hj : ¬ free j) (f : ι → α) (l : List ι) :
    l.foldl (relax F free) f j = f j := by
  induction l generalizing f with
  | nil => rfl
  | cons i l ih =>
    rw [List.foldl_cons, ih, relax_apply, if_neg]
    rintro ⟨rfl, hi⟩
    exact hj hi

variable [PartialOrder α]

/-- The rule does not lower the assignment. -/
def Ascending (F : (ι → α) → ι → α) (free : ι → Prop) (f : ι → α) : Prop :=
  ∀ i, free i → f i ≤ F f i

variable {f g : ι → α}

/-- Visiting an index raises an ascending assignment. -/
theorem Ascending.le_relax (hf : Ascending F free f) (i : ι) : f ≤ relax F free f i := by
  intro j
  rw [relax_apply]
  split
  next h => exact h.1 ▸ hf i h.2
  next => exact le_rfl

/-- Visiting an index stays below what the rule does not raise. -/
theorem relax_le (hmono : Monotone F) (hfg : f ≤ g) (hg : ∀ i, free i → F g i ≤ g i) (i : ι) :
    relax F free f i ≤ g := by
  intro j
  rw [relax_apply]
  split
  next h => exact h.1 ▸ (hmono hfg i).trans (hg i h.2)
  next => exact hfg j

/-- Visiting an index keeps an assignment ascending. -/
theorem Ascending.relax (hf : Ascending F free f) (hmono : Monotone F) (i : ι) :
    Ascending F free (relax F free f i) := by
  intro j hj
  have hF := hmono (hf.le_relax i) j
  rw [relax_apply]
  split
  next h => exact h.1 ▸ hmono (hf.le_relax i) i
  next => exact (hf j hj).trans hF

/-- Several visits keep an assignment ascending. -/
theorem Ascending.foldl_relax (hf : Ascending F free f) (hmono : Monotone F) (l : List ι) :
    Ascending F free (l.foldl (ToMathlib.relax F free) f) := by
  induction l generalizing f with
  | nil => exact hf
  | cons i l ih => exact ih (hf.relax hmono i)

/-- Several visits raise an ascending assignment. -/
theorem Ascending.le_foldl_relax (hf : Ascending F free f) (hmono : Monotone F) (l : List ι) :
    f ≤ l.foldl (ToMathlib.relax F free) f := by
  induction l generalizing f with
  | nil => exact le_rfl
  | cons i l ih => exact (hf.le_relax i).trans (ih (hf.relax hmono i))

/-- Several visits stay below what the rule does not raise. -/
theorem foldl_relax_le (hmono : Monotone F) (hg : ∀ i, free i → F g i ≤ g i) (hfg : f ≤ g)
    (l : List ι) : l.foldl (relax F free) f ≤ g := by
  induction l generalizing f with
  | nil => exact hfg
  | cons i l ih => exact ih (relax_le hmono hfg hg i)

/-- If a pass has changed nothing, the rule holds at every free index it has visited. -/
theorem Ascending.eq_of_foldl_eq (hf : Ascending F free f) (hmono : Monotone F) {l : List ι}
    (h : l.foldl (ToMathlib.relax F free) f = f) : ∀ i ∈ l, free i → f i = F f i := by
  induction l with
  | nil => exact fun i hi => absurd hi List.not_mem_nil
  | cons i l ih =>
    -- nothing is lowered later, so the first visit has changed nothing either
    have hfirst : ToMathlib.relax F free f i = f :=
      le_antisymm (((hf.relax hmono i).le_foldl_relax hmono l).trans h.le) (hf.le_relax i)
    intro j hj hfree
    rcases List.mem_cons.mp hj with rfl | hj
    · have hvalue := congrFun hfirst j
      rw [relax_apply, if_pos ⟨rfl, hfree⟩] at hvalue
      exact hvalue.symm
    · rw [List.foldl_cons, hfirst] at h
      exact ih h j hj hfree

/-- The solutions of the rule above a start. -/
def Solutions (F : (ι → α) → ι → α) (free : ι → Prop) (base : ι → α) : Set (ι → α) :=
  { f | base ≤ f ∧ ∀ i, free i → f i = F f i }

/-- The assignment lies on the way from the start to the least solution. -/
structure Approximates (F : (ι → α) → ι → α) (free : ι → Prop) (base f : ι → α) : Prop where
  base_le : base ≤ f
  ascending : Ascending F free f
  /-- It is below everything above the start that the rule does not raise. -/
  le : ∀ g, base ≤ g → (∀ i, free i → F g i ≤ g i) → f ≤ g

omit [DecidableEq ι] [DecidablePred free] in
/-- The start approximates its own least solution. -/
theorem Approximates.refl (h : Ascending F free f) : Approximates F free f f :=
  ⟨le_rfl, h, fun _ hg _ => hg⟩

/-- Visits stay on the way to the least solution. -/
theorem Approximates.foldl_relax {base : ι → α} (h : Approximates F free base f)
    (hmono : Monotone F) (l : List ι) :
    Approximates F free base (l.foldl (ToMathlib.relax F free) f) where
  base_le := h.base_le.trans (h.ascending.le_foldl_relax hmono l)
  ascending := h.ascending.foldl_relax hmono l
  le g hbase hg := foldl_relax_le hmono hg (h.le g hbase hg) l

omit [DecidableEq ι] [DecidablePred free] in
/-- An approximation at which the rule holds is the least solution. -/
theorem Approximates.isLeast {base : ι → α} (h : Approximates F free base f)
    (hfixed : ∀ i, free i → f i = F f i) : IsLeast (Solutions F free base) f :=
  ⟨⟨h.base_le, hfixed⟩, fun g hg => h.le g hg.1 fun i hi => (hg.2 i hi).ge⟩

end Relax

/-! ## Termination -/

section Deficit

variable {ι α : Type*} (rank : α → ℕ) (height : ℕ) (s : Finset ι)

/-- How far the values at the indices of `s` are below the height. -/
def deficit (f : ι → α) : ℕ := ∑ i ∈ s, (height - rank (f i))

variable {rank height s}

/-- Raising an assignment at the indices of `s` lowers the deficit. -/
theorem deficit_lt_of_le_of_ne [PartialOrder α] (hrank : StrictMono rank) {f g : ι → α}
    (hle : f ≤ g) (hne : f ≠ g) (hframe : ∀ i, i ∉ s → g i = f i)
    (hheight : ∀ i ∈ s, rank (g i) ≤ height) :
    deficit rank height s g < deficit rank height s f := by
  obtain ⟨i, hi⟩ := Function.ne_iff.mp hne
  have hmem : i ∈ s := by
    by_contra hnot
    exact hi (hframe i hnot).symm
  refine Finset.sum_lt_sum (fun j hj => ?_) ⟨i, hmem, ?_⟩
  · exact Nat.sub_le_sub_left (hrank.monotone (hle j)) _
  · have hlt : rank (f i) < rank (g i) := hrank (lt_of_le_of_ne (hle i) hi)
    have hbound := hheight i hmem
    omega

end Deficit

end ToMathlib
