import Mathlib.Data.List.Basic
import Mathlib.Tactic.Common

/-!
# Fixed-window counters

A counter that admits at most `limit` events in one window. A window opens with an event, and lasts
for `width` units of time; the next one opens with the first event after that. In any interval
shorter than `width` there are events of two windows at most.

* `Filled`: how the admitted times are spread over the windows;
* `Filled.same`, `Filled.opened`: an event is admitted into the open window, or opens a new one;
* `Filled.spread`: any `2 * limit + 1` admitted events span at least `width`.
-/

namespace ToMathlib.FixedWindow

/-- Any `2 * limit + 1` of the times, in order, span at least `width`. -/
def Spread (width limit : ℕ) (times : List ℕ) : Prop :=
  ∀ burst : List ℕ, burst.Sublist times → burst.length = 2 * limit + 1 →
    ∀ first last, burst.head? = some first → burst.getLast? = some last → first + width ≤ last

/-- The admitted times, in order, when the open window has started at `start` and has admitted
`count` events: those of the window before came before it, and all others came earlier still. -/
structure Filled (width limit : ℕ) (times : List ℕ) (start count : ℕ) : Prop where
  windows : ∃ old prev cur, times = old ++ (prev ++ cur) ∧ cur.length = count ∧
    prev.length ≤ limit ∧ (∀ t ∈ old, t + width ≤ start) ∧ ∀ t ∈ prev, t ≤ start
  count_le : count ≤ limit
  spread : Spread width limit times

variable {width limit start count now : ℕ} {times old recent : List ℕ}

theorem spread_nil : Spread width limit [] := by
  intro burst hsub hlen
  rw [List.sublist_nil.mp hsub] at hlen
  cases hlen

/-- One more time keeps the times spread if fewer than `2 * limit` of them are less than `width`
before it. -/
theorem Spread.concat (h : Spread width limit (old ++ recent)) (hrecent : recent.length < 2 * limit)
    (hold : ∀ t ∈ old, t + width ≤ now) : Spread width limit (old ++ recent ++ [now]) := by
  intro burst hsub hlen first last hfirst hlast
  obtain ⟨before, tail, rfl, hbefore, htail⟩ := List.sublist_append_iff.mp hsub
  rcases List.sublist_singleton.mp htail with rfl | rfl
  · rw [List.append_nil] at hlen hfirst hlast
    exact h before hbefore hlen first last hfirst hlast
  -- the burst ends with the new time, and is too long to start with a recent one
  · rw [List.getLast?_concat] at hlast
    cases hlast
    obtain ⟨early, late, rfl, hearly, hlate⟩ := List.sublist_append_iff.mp hbefore
    rw [List.length_append, List.length_append, List.length_singleton] at hlen
    have hlate := hlate.length_le
    cases early with
    | nil =>
      rw [List.length_nil] at hlen
      omega
    | cons t early =>
      cases hfirst
      exact hold _ (hearly.subset List.mem_cons_self)

/-- The first event opens a window. -/
theorem Filled.first (hlimit : 0 < limit) : Filled width limit [now] now 1 where
  windows := ⟨[], [], [now], rfl, rfl, Nat.zero_le _, fun _ ht => absurd ht List.not_mem_nil,
    fun _ ht => absurd ht List.not_mem_nil⟩
  count_le := hlimit
  spread := by
    have hrecent : ([] : List ℕ).length < 2 * limit := by
      rw [List.length_nil]
      omega
    exact @Spread.concat width limit now [] [] spread_nil hrecent
      fun _ ht => absurd ht List.not_mem_nil

/-- An event is admitted into the open window. -/
theorem Filled.same (h : Filled width limit times start count) (hcount : count < limit)
    (hstart : start ≤ now) : Filled width limit (times ++ [now]) start (count + 1) := by
  obtain ⟨old, prev, cur, rfl, rfl, hprev, hold, hbefore⟩ := h.windows
  refine ⟨⟨old, prev, cur ++ [now], ?_, ?_, hprev, hold, hbefore⟩, hcount, ?_⟩
  · rw [List.append_assoc, List.append_assoc]
  · rw [List.length_append, List.length_singleton]
  · refine h.spread.concat ?_ fun t ht => Nat.le_trans (hold t ht) hstart
    rw [List.length_append]
    omega

/-- The open window has run out, and an event opens a new one. -/
theorem Filled.opened (h : Filled width limit times start count) (hlimit : 0 < limit)
    (hout : start + width ≤ now) (hlast : ∀ t ∈ times, t ≤ now) :
    Filled width limit (times ++ [now]) now 1 := by
  obtain ⟨old, prev, cur, rfl, rfl, hprev, hold, hbefore⟩ := h.windows
  -- what came before the window that has run out is old now
  have hold' : ∀ t ∈ old ++ prev, t + width ≤ now := by
    intro t ht
    rcases List.mem_append.mp ht with ht | ht
    · have := hold t ht
      omega
    · have := hbefore t ht
      omega
  refine ⟨⟨old ++ prev, cur, [now], ?_, rfl, h.count_le, hold', fun t ht => ?_⟩, hlimit, ?_⟩
  · rw [List.append_assoc, List.append_assoc, List.append_assoc]
  · exact hlast t (List.mem_append_right _ (List.mem_append_right _ ht))
  · have hspread := h.spread
    rw [← List.append_assoc] at hspread ⊢
    refine hspread.concat ?_ hold'
    have := h.count_le
    omega

end ToMathlib.FixedWindow
