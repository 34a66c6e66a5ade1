import ChronoShift.DcNet.OneShare
import ChronoShift.DcNet.QueuedMessage

/-!
# Refused and repeated initiations

`RoundDriver.initiate` refuses a text that is too long and a list that we are not on before it does
anything. A missing edge key is noticed only when the share is computed, and by then the counter has
advanced: our next round and the one that the peers announce next have different ids from then on.

A driver holds one queued text, one pending round and one share. An initiation replaces all three,
so it gives up what was queued before. The round of the earlier text keeps its collector, but
nothing is ever sent for it again.

* `RoundDriver.initiate_atomic_iff`: when a refused initiation leaves the driver as it was;
* `RoundDriver.earlier_kept_iff`: when an initiation leaves an earlier text queued or in flight.
-/

namespace ChronoShift

namespace RoundDriver

variable {prim : Primitives} {env : CallEnv} {ctx : RoundContext} {d : RoundDriver}
  {channel text : String} {participants : List String}

/-! ## Refused initiations -/

/-- An initiation succeeds with a text that fits, among participants we can take part with. -/
theorem initiate_error_iff :
    (∃ e, (initiate prim env d channel text participants ctx).2 = .error e) ↔
      channelPayloadLen < (asBytes text).length + 36 ∨ ¬ CanTakePart ctx participants := by
  constructor
  · rintro ⟨e, herror⟩
    by_contra hcan
    rw [not_or, not_lt, not_not] at hcan
    obtain ⟨d', share, -, hinit⟩ := @initiate_begun prim env ctx d channel text participants
      hcan.1 hcan.2
    rw [hinit] at herror
    cases herror
  · intro hcannot
    cases hinit : initiate prim env d channel text participants ctx with
    | mk d' res =>
      rcases initiate_cases hinit with ⟨-, e, rfl⟩ | ⟨-, e, rfl⟩ | ⟨share, hb, -⟩
      · exact ⟨e, rfl⟩
      · exact ⟨e, rfl⟩
      -- a round that is begun has a share, and with it all edge keys
      · have hkeys := computeXorShareSecure_isSome.mp (Option.isSome_of_eq_some hb.share_eq)
        refine absurd hcannot (not_or.mpr ⟨not_lt.mpr hb.fits, not_not_intro ?_⟩)
        exact ⟨hb.two_le, hb.mem, hkeys.2.2.1⟩

/-- A text that fits uses up a round id among participants that we are one of, with or without the
edge keys. -/
theorem currentRoundId_initiate (hfits : (asBytes text).length + 36 ≤ channelPayloadLen)
    (htwo : 2 ≤ participants.length) (hmem : ctx.myUid ∈ participants) :
    (initiate prim env d channel text participants ctx).1.tracker.currentRoundId =
      d.tracker.currentRoundId + 1 := by
  have hpart : ¬ (participants.length < 2 ∨ ctx.myUid ∉ participants) := by
    rw [not_or, not_lt, not_not]
    exact ⟨htwo, hmem⟩
  rw [initiate, if_neg (not_lt.mpr hfits), if_neg hpart]
  dsimp only
  split <;> rfl

/-- A refused initiation leaves the whole driver as it was if and only if the text is too long, or
we are not one of at least two participants, or we hold an edge key for every other participant. -/
theorem initiate_atomic_iff (prim : Primitives) (env : CallEnv) (d : RoundDriver)
    (channel text : String) (participants : List String) (ctx : RoundContext) :
    ((∃ e, (initiate prim env d channel text participants ctx).2 = .error e) →
      (initiate prim env d channel text participants ctx).1 = d) ↔
    channelPayloadLen < (asBytes text).length + 36 ∨
      (participants.length < 2 ∨ ctx.myUid ∉ participants) ∨
        ∀ other ∈ participants, other ≠ ctx.myUid → other ∈ ctx.edgeKeys := by
  by_cases hlong : channelPayloadLen < (asBytes text).length + 36
  · refine iff_of_true (fun _ => ?_) (Or.inl hlong)
    rw [initiate, if_pos hlong]
  by_cases hpart : participants.length < 2 ∨ ctx.myUid ∉ participants
  · refine iff_of_true (fun _ => ?_) (Or.inr (Or.inl hpart))
    rw [initiate, if_neg hlong, if_pos hpart]
  rw [initiate_error_iff, or_iff_right hlong, or_iff_right hlong, or_iff_right hpart]
  rw [not_or, not_lt, not_not] at hpart
  constructor
  · intro hatomic
    by_contra hkeys
    have hsame := hatomic fun hcan => hkeys hcan.2.2
    have hcounter := @currentRoundId_initiate prim env ctx d channel text participants
      (not_lt.mp hlong) hpart.1 hpart.2
    rw [hsame] at hcounter
    omega
  · exact fun hkeys hcannot => absurd ⟨hpart.1, hpart.2, hkeys⟩ hcannot

/-- Without an edge key for Carol, Alice's driver refuses the round and has moved on to the next
one. -/
theorem initiate_not_atomic :
    ¬ ∀ (prim : Primitives) (env : CallEnv) (d : RoundDriver) (channel text : String)
      (participants : List String) (ctx : RoundContext),
      (∃ e, (initiate prim env d channel text participants ctx).2 = .error e) →
        (initiate prim env d channel text participants ctx).1 = d := by
  intro hclaim
  have hcannot : ¬ CanTakePart aliceCtx ["alice", "carol"] := fun h =>
    absurd (h.2.2 "carol" (by decide) (by decide)) (by decide)
  have hsame := hclaim .const .still RoundDriver.new "#g" "hi" ["alice", "carol"] aliceCtx
    (initiate_error_iff.mpr (Or.inr hcannot))
  have hcounter := @currentRoundId_initiate .const .still aliceCtx RoundDriver.new "#g" "hi"
    ["alice", "carol"] (by decide) (by decide) (by decide)
  rw [hsame] at hcounter
  exact absurd hcounter (by decide)

/-! ## Repeated initiations -/

/-- The text `first`, queued in `d`, is still queued in `d'`, or its round is: some calls make the
driver send a share for it. -/
def KeepsEarlier (prim : Primitives) (d d' : RoundDriver) (first : Bytes) : Prop :=
  d'.pendingMessage = some first ∨
    ∃ roundId, d.pendingRoundId = some roundId ∧
      ∃ inputs i, ∃ s ∈ sharesAt (d'.run prim inputs).2 i, s.1 = roundId

/-- In every run some set of rounds has been shared. -/
theorem exists_oneShareInv_run {shared : Set ℕ} (h : OneShareInv shared d)
    (inputs : List DriverInput) : ∃ shared', OneShareInv shared' (d.run prim inputs).1 := by
  induction inputs generalizing d shared with
  | nil => exact ⟨shared, h⟩
  | cons input inputs ih =>
    have hstep : SharesOnce shared (d.call prim input).1 (d.call prim input).2.outgoing :=
      call_sharesOnce h rfl
    rcases hstep with ⟨-, hd⟩ | ⟨id, payload, -, -, hd⟩
    · exact ih hd
    · exact ih hd

/-- Once a new round has begun, no share is ever sent for the round that was pending. -/
theorem not_shared_of_begun {shared : Set ℕ} {d' : RoundDriver} {share : Bytes} {roundId : ℕ}
    (h : OneShareInv shared d) (hb : Begun prim env ctx d d' channel text participants share)
    (hpending : d.pendingRoundId = some roundId) (inputs : List DriverInput) (i : ℕ)
    {s : ℕ × Bytes} (hs : s ∈ sharesAt (d'.run prim inputs).2 i) : s.1 ≠ roundId := by
  have hle := h.pending_le roundId hpending
  -- the earlier round might as well have been shared already
  have hgone : OneShareInv (insert roundId shared) d' := by
    refine (h.begun hb).share ?_ ?_
    · rw [hb.state_eq]
      exact Nat.le_succ_of_le hle
    · rw [hb.state_eq]
      intro heq
      have : d.tracker.currentRoundId + 1 = roundId := Option.some.inj heq
      omega
  intro heq
  exact run_shares_notMem hgone inputs hs (heq ▸ Set.mem_insert roundId shared)

/-- In every state that a run of a new driver reaches, an initiation that begins a round with
another text gives the earlier one up. -/
theorem not_keepsEarlier (prim : Primitives) (env : CallEnv) (channel : String)
    (inputs : List DriverInput) {first : Bytes} (htext : asBytes text ≠ first)
    (hfits : (asBytes text).length + 36 ≤ channelPayloadLen)
    (hpart : CanTakePart ctx participants) :
    ¬ KeepsEarlier prim (RoundDriver.new.run prim inputs).1
      (initiate prim env (RoundDriver.new.run prim inputs).1 channel text participants ctx).1
        first := by
  obtain ⟨shared, hinv⟩ := @exists_oneShareInv_run prim _ _ OneShareInv.new inputs
  obtain ⟨d', share, hb, hinit⟩ := @initiate_begun prim env ctx
    (RoundDriver.new.run prim inputs).1 channel text participants hfits hpart
  rw [hinit]
  rintro (hqueued | ⟨roundId, hround, later, i, s, hs, heq⟩)
  -- the new text has taken the place of the earlier one
  · rw [hb.state_eq] at hqueued
    exact htext (Option.some.inj hqueued)
  · exact not_shared_of_begun hinv hb hround later i hs heq

/-- In every state that a run of a new driver reaches, an initiation with another text than `first`,
such as the queued one, returns an error, or leaves `first` queued or in flight, if and only if the
new text is too long or we cannot take part in a round of these participants. -/
theorem earlier_kept_iff (prim : Primitives) (inputs : List DriverInput) (first : Bytes)
    (env : CallEnv) (ctx : RoundContext) (channel : String) {text : String}
    (participants : List String) (htext : asBytes text ≠ first) :
    ((∃ e, (initiate prim env (RoundDriver.new.run prim inputs).1 channel text participants
        ctx).2 = .error e) ∨
      KeepsEarlier prim (RoundDriver.new.run prim inputs).1
        (initiate prim env (RoundDriver.new.run prim inputs).1 channel text participants ctx).1
          first) ↔
    channelPayloadLen < (asBytes text).length + 36 ∨ ¬ CanTakePart ctx participants := by
  rw [initiate_error_iff]
  refine or_iff_left_of_imp fun hkeeps => ?_
  by_contra hcan
  rw [not_or, not_lt, not_not] at hcan
  exact not_keepsEarlier prim env channel inputs htext hcan.1 hcan.2 hkeeps

/-- Alice's text is queued, and one for Carol is refused. -/
theorem earlier_kept_refused :
    ((∃ e, (initiate .const .still (RoundDriver.new.run .const [aliceInitiates]).1 "#g" "ho"
        ["alice", "carol"] aliceCtx).2 = .error e) ∨
      KeepsEarlier .const (RoundDriver.new.run .const [aliceInitiates]).1
        (initiate .const .still (RoundDriver.new.run .const [aliceInitiates]).1 "#g" "ho"
          ["alice", "carol"] aliceCtx).1 (asBytes "hi")) ↔
    channelPayloadLen < (asBytes "ho").length + 36 ∨ ¬ CanTakePart aliceCtx ["alice", "carol"] :=
  earlier_kept_iff .const [aliceInitiates] (asBytes "hi") .still aliceCtx "#g" ["alice", "carol"]
    (by decide)

/-- Alice initiates a second round with Bob before the first one is complete: her first text is
gone, and no share will ever carry it. -/
theorem earlier_lost :
    ¬ ∀ (prim : Primitives) (inputs : List DriverInput) (first : Bytes) (env : CallEnv)
      (ctx : RoundContext) (channel text : String) (participants : List String),
      (RoundDriver.new.run prim inputs).1.pendingMessage = some first → asBytes text ≠ first →
        (∃ e, (initiate prim env (RoundDriver.new.run prim inputs).1 channel text participants
          ctx).2 = .error e) ∨
        KeepsEarlier prim (RoundDriver.new.run prim inputs).1
          (initiate prim env (RoundDriver.new.run prim inputs).1 channel text participants ctx).1
            first := by
  intro hclaim
  have hpending : (RoundDriver.new.run .const [aliceInitiates]).1.pendingMessage =
      some (asBytes "hi") := by
    obtain ⟨share, hb⟩ := call_aliceInitiates
    show (RoundDriver.new.call .const aliceInitiates).1.pendingMessage = _
    rw [hb.state_eq]
    rfl
  have hpart : CanTakePart aliceCtx ["alice", "bob"] := ⟨by decide, by decide, by decide⟩
  rcases hclaim .const [aliceInitiates] (asBytes "hi") .still aliceCtx "#g" "ho" ["alice", "bob"]
    hpending (by decide) with herror | hkeeps
  · rcases initiate_error_iff.mp herror with hlong | hcannot
    · exact absurd hlong (by decide)
    · exact hcannot hpart
  · exact not_keepsEarlier .const .still "#g" [aliceInitiates] (by decide) (by decide) hpart hkeeps

end RoundDriver

end ChronoShift
