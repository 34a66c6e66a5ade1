import ChronoShift.EngineRuns
import ChronoShift.DcNet.OneShare
import ChronoShift.DcNet.QueuedMessage

/-!
# Announced and collected lengths

An announcement carries the payload length of its round, and nobody checks it. `RoundCollector::new`
clamps the length to between 4 and 65536 bytes, while the driver and the engine compute their shares
with the announced length itself. Outside of the range every collector of the round refuses every
share, also that of its own node. A length that no `Vec` can hold is not answered: the call panics.

* `RoundDriver.onRoundStart_answered`, `RoundEngine.handleRoundStart_answered`: which announcements
  are answered with a share;
* `announced_length_iff`: when the shares that are sent have the length that is collected.
-/

namespace ChronoShift

open ToMathlib

/-- A share of the length that a collector of the announced round takes. -/
def HasCollectedLength (payloadLen : ℕ) (share : Bytes) : Prop :=
  ∀ channel roundId participants deadlineSecs now,
    share.length =
      (RoundCollector.new channel roundId participants deadlineSecs payloadLen now).payloadLen

/-- The clamp leaves the lengths in its range alone. -/
theorem hasCollectedLength_iff {payloadLen : ℕ} {share : Bytes} (h : share.length = payloadLen) :
    HasCollectedLength payloadLen share ↔ 4 ≤ payloadLen ∧ payloadLen ≤ 65536 := by
  simp only [HasCollectedLength, RoundCollector.new, h]
  constructor
  · intro hlen
    have := hlen "" 0 [] 0 0
    omega
  · rintro hrange - - - - -
    omega

namespace RoundDriver

variable {prim : Primitives} {env : CallEnv} {ctx : RoundContext} {d : RoundDriver}
  {channel : String} {roundId : ℕ} {leaderId : String} {participants : List String}

/-- The driver answers the announcement to somebody: the round is the next one, or our own pending
one and the other initiator wins, we can take part, and a `Vec` can hold the share. -/
structure Answers (ctx : RoundContext) (d : RoundDriver) (roundId : ℕ) (leaderId : String)
    (participants : List String) (payloadLen : ℕ) : Prop where
  entered : roundId = d.tracker.currentRoundId + 1 ∨
    d.pendingRoundId = some roundId ∧ leaderId < ctx.myUid
  canTakePart : CanTakePart ctx participants
  other : ∃ uid ∈ participants, uid ≠ ctx.myUid
  len : payloadLen ≤ maxVecLen

/-- The shares that `on_round_start` sends: none if it panics. -/
def startShares (prim : Primitives) (env : CallEnv) (ctx : RoundContext) (d : RoundDriver)
    (channel : String) (roundId : ℕ) (leaderId : String) (participants : List String)
    (deadlineSecs payloadLen : ℕ) : List (ℕ × Bytes) :=
  if SharePanics ctx.myUid participants payloadLen then []
  else
    sharesOf (d.onRoundStart prim env channel roundId leaderId participants deadlineSecs payloadLen
      ctx).2.outgoing

/-- Every share that is sent has the collected length, and is stored as ours in the collector of the
round. -/
def SharesCollected (prim : Primitives) (env : CallEnv) (ctx : RoundContext) (d : RoundDriver)
    (channel : String) (roundId : ℕ) (leaderId : String) (participants : List String)
    (deadlineSecs payloadLen : ℕ) : Prop :=
  ∀ s ∈ d.startShares prim env ctx channel roundId leaderId participants deadlineSecs payloadLen,
    HasCollectedLength payloadLen s.2 ∧
      ∃ c, (d.onRoundStart prim env channel roundId leaderId participants deadlineSecs payloadLen
          ctx).1.collectors.lookup roundId = some c ∧
        c.sharesReceived.lookup ctx.myUid = some s.2

/-- The shares of an answer. -/
theorem Answered.mem_sharesOf {d' : RoundDriver} {deadlineSecs payloadLen : ℕ} {share : Bytes}
    {action : RoundAction} (h : Answered prim env ctx d d' channel roundId participants deadlineSecs
      payloadLen share action) {s : ℕ × Bytes} :
    s ∈ sharesOf action.outgoing ↔
      s = (roundId, share) ∧ ∃ uid ∈ participants, uid ≠ ctx.myUid := by
  rw [h.action_eq]
  constructor
  · intro hs
    refine ⟨eq_of_mem_sharesOf_toOthers hs, ?_⟩
    obtain ⟨target, _, _, _, hsent⟩ := ChronoShift.mem_sharesOf.mp hs
    obtain ⟨hmem, hne, -⟩ := mem_toOthers.mp hsent
    exact ⟨target, hmem, hne⟩
  · rintro ⟨rfl, uid, hmem, hne⟩
    exact ChronoShift.mem_sharesOf.mpr ⟨uid, _, _, _, mem_toOthers.mpr ⟨hmem, hne, rfl⟩⟩

/-- The collector of an answered round has our share if and only if the announced length is in the
range of the clamp. -/
theorem Answered.collected_iff {d' : RoundDriver} {deadlineSecs payloadLen : ℕ} {share : Bytes}
    {action : RoundAction} (h : Answered prim env ctx d d' channel roundId participants deadlineSecs
      payloadLen share action) :
    (HasCollectedLength payloadLen share ∧ ∃ c, d'.collectors.lookup roundId = some c ∧
      c.sharesReceived.lookup ctx.myUid = some share) ↔ 4 ≤ payloadLen ∧ payloadLen ≤ 65536 := by
  have hlen : share.length = payloadLen := (computeXorShareSecure_eq_some h.share_eq).1
  rw [← hasCollectedLength_iff hlen]
  refine and_iff_left_of_imp fun hcollected => ?_
  have hsubmit := RoundCollector.submitShare_eq_ok.mpr
    ⟨List.mem_dedup.mpr h.mem, AList.notMem_empty ctx.myUid,
      hcollected channel roundId participants deadlineSecs env.now, rfl⟩
  rw [h.state_eq, RoundCollector.trySubmit, hsubmit]
  exact ⟨_, AList.lookup_insert _, AList.lookup_insert _⟩

/-- An announcement that the driver answers gets its share. -/
theorem onRoundStart_answered {payloadLen : ℕ}
    (h : d.Answers ctx roundId leaderId participants payloadLen) (deadlineSecs : ℕ) :
    ∃ d₁ share, Answered prim env ctx d₁
      (d.onRoundStart prim env channel roundId leaderId participants deadlineSecs payloadLen ctx).1
      channel roundId participants deadlineSecs payloadLen share
      (d.onRoundStart prim env channel roundId leaderId participants deadlineSecs payloadLen
        ctx).2 := by
  unfold onRoundStart RoundTracker.markSeen
  by_cases hnext : roundId = d.tracker.currentRoundId + 1
  · rw [if_pos hnext]
    exact ⟨_, participate_answered h.canTakePart⟩
  · obtain ⟨hpending, hlt⟩ := h.entered.resolve_left hnext
    rw [if_neg hnext]
    dsimp only
    rw [if_pos ⟨⟨hpending, fun heq => String.lt_irrefl _ (heq ▸ hlt)⟩, hlt⟩]
    exact ⟨_, participate_answered h.canTakePart⟩

/-- What the driver sends is collected, if and only if it sends nothing or the announced length is
in the range of the clamp. -/
theorem sharesCollected_iff (deadlineSecs payloadLen : ℕ) :
    d.SharesCollected prim env ctx channel roundId leaderId participants deadlineSecs payloadLen ↔
      d.Answers ctx roundId leaderId participants payloadLen →
        4 ≤ payloadLen ∧ payloadLen ≤ 65536 := by
  rw [SharesCollected, startShares]
  constructor
  · intro hcollected hanswers
    obtain ⟨d₁, share, hans⟩ := @onRoundStart_answered prim env ctx d channel roundId leaderId
      participants payloadLen hanswers deadlineSecs
    rw [if_neg fun hpanic => not_le.mpr hpanic.2.2 hanswers.len] at hcollected
    -- there is another participant, so that a share is sent whose length can be compared
    exact hans.collected_iff.mp
      (hcollected (roundId, share) (hans.mem_sharesOf.mpr ⟨rfl, hanswers.other⟩))
  · intro hrange s hs
    split_ifs at hs with hpanic
    · cases hs
    cases hres : d.onRoundStart prim env channel roundId leaderId participants deadlineSecs
        payloadLen ctx with
    | mk d' action =>
      rw [hres] at hs
      -- nothing is shared unless the driver answers, which is what `Answers` asks for
      rcases onRoundStart_cases hres with ⟨-, rfl⟩ | ⟨d₁, hentered, ⟨-, rfl⟩ | ⟨share, hans⟩⟩
      · cases hs
      · cases hs
      · obtain ⟨rfl, hother⟩ := hans.mem_sharesOf.mp hs
        have hshare := computeXorShareSecure_isSome.mp (Option.isSome_of_eq_some hans.share_eq)
        have hlen : payloadLen ≤ maxVecLen :=
          not_lt.mp fun hlong => hpanic ((sharePanics_iff hans.share_eq).mpr hlong)
        refine hans.collected_iff.mpr
          (hrange ⟨?_, ⟨hshare.1, hshare.2.1, hshare.2.2.1⟩, hother, hlen⟩)
        cases hentered with
        | next hnext => exact Or.inl hnext
        | lost hpending hlt => exact Or.inr ⟨hpending, hlt⟩

end RoundDriver

namespace RoundEngine

variable {prim : Primitives} {ctx : RoundContext} {e : RoundEngine}
  {channel : String} {roundId : ℕ} {leaderId : String} {participants : List String}

/-- The engine answers the announcement: the round is the next one, we can take part, the queued
text, if there is one, fits the announced length, and a `Vec` can hold the share. -/
structure Answers (ctx : RoundContext) (e : RoundEngine) (roundId : ℕ) (participants : List String)
    (payloadLen : ℕ) : Prop where
  next : roundId = e.tracker.currentRoundId + 1
  two_le : 2 ≤ participants.length
  mem : e.myUid ∈ participants
  keys : ∀ other ∈ participants, other ≠ e.myUid → other ∈ ctx.edgeKeys
  fits : ∀ text, e.tracker.messageQueue.head? = some text →
    36 + (asBytes text).length ≤ payloadLen
  len : payloadLen ≤ maxVecLen

/-- Every share that is sent has the collected length. -/
def SharesCollected (prim : Primitives) (ctx : RoundContext) (e : RoundEngine) (channel : String)
    (roundId : ℕ) (leaderId : String) (participants : List String) (payloadLen : ℕ) : Prop :=
  ∀ s ∈ sharesOf (e.handleRoundStart prim ctx channel roundId leaderId participants
    payloadLen).outgoing, HasCollectedLength payloadLen s.2

/-- A share is sent for the announcements that the engine answers. -/
theorem handleRoundStart_answered {payloadLen : ℕ} {s : ℕ × Bytes} :
    s ∈ sharesOf (e.handleRoundStart prim ctx channel roundId leaderId participants
      payloadLen).outgoing ↔
    roundId = e.tracker.currentRoundId + 1 ∧
      ∃ share, e.answer prim ctx roundId participants payloadLen = some share ∧
        s = (roundId, share) := by
  by_cases hnext : roundId = e.tracker.currentRoundId + 1
  · rw [(handleRoundStart_next hnext channel leaderId participants payloadLen).2.2]
    cases e.answer prim ctx roundId participants payloadLen with
    | none => simp [sharesOf]
    | some share => simp [sharesOf, hnext]
  · rw [handleRoundStart_of_ne hnext]
    simp [sharesOf, hnext]

theorem answer_isSome_iff {payloadLen : ℕ} (hnext : roundId = e.tracker.currentRoundId + 1) :
    (e.answer prim ctx roundId participants payloadLen).isSome ↔
      e.Answers ctx roundId participants payloadLen := by
  rw [answer_isSome]
  constructor
  · rintro ⟨htwo, hmem, hkeys, hfits, hlen⟩
    exact ⟨hnext, htwo, hmem, hkeys, hfits, hlen⟩
  · exact fun h => ⟨h.two_le, h.mem, h.keys, h.fits, h.len⟩

/-- What the engine sends has the collected length, if and only if it sends nothing or the announced
length is in the range of the clamp. -/
theorem sharesCollected_iff (payloadLen : ℕ) :
    e.SharesCollected prim ctx channel roundId leaderId participants payloadLen ↔
      e.Answers ctx roundId participants payloadLen → 4 ≤ payloadLen ∧ payloadLen ≤ 65536 := by
  constructor
  · intro hcollected hanswers
    obtain ⟨share, hshare⟩ := Option.isSome_iff_exists.mp
      ((@answer_isSome_iff prim ctx e _ _ _ hanswers.next).mpr hanswers)
    exact (hasCollectedLength_iff (length_answer hshare)).mp
      (hcollected (roundId, share)
        (handleRoundStart_answered.mpr ⟨hanswers.next, share, hshare, rfl⟩))
  · intro hrange s hs
    obtain ⟨hnext, share, hshare, rfl⟩ := handleRoundStart_answered.mp hs
    have hanswers := (answer_isSome_iff hnext).mp (Option.isSome_of_eq_some hshare)
    exact (hasCollectedLength_iff (length_answer hshare)).mpr (hrange hanswers)

end RoundEngine

/-- The shares that answer an announcement have the length that its collectors take, and the driver
has stored its own, if and only if there is no answer or the announced length is between 4 and 65536
bytes. -/
theorem announced_length_iff (prim : Primitives) (env : CallEnv) (ctx : RoundContext)
    (d : RoundDriver) (e : RoundEngine) (channel : String) (roundId : ℕ) (leaderId : String)
    (participants : List String) (deadlineSecs payloadLen : ℕ) :
    (d.SharesCollected prim env ctx channel roundId leaderId participants deadlineSecs payloadLen ↔
      ¬ d.Answers ctx roundId leaderId participants payloadLen ∨
        4 ≤ payloadLen ∧ payloadLen ≤ 65536) ∧
    (e.SharesCollected prim ctx channel roundId leaderId participants payloadLen ↔
      ¬ e.Answers ctx roundId participants payloadLen ∨ 4 ≤ payloadLen ∧ payloadLen ≤ 65536) :=
  ⟨(RoundDriver.sharesCollected_iff deadlineSecs payloadLen).trans imp_iff_not_or,
    (RoundEngine.sharesCollected_iff payloadLen).trans imp_iff_not_or⟩

/-- Bob announces a round of three bytes. Alice's driver sends him a share of three bytes, which her
own collector of four bytes has refused. -/
theorem announced_three_not_collected :
    ¬ ∀ (prim : Primitives) (env : CallEnv) (ctx : RoundContext) (d : RoundDriver)
      (e : RoundEngine) (channel : String) (roundId : ℕ) (leaderId : String)
      (participants : List String) (deadlineSecs payloadLen : ℕ),
      d.SharesCollected prim env ctx channel roundId leaderId participants deadlineSecs payloadLen ∧
        e.SharesCollected prim ctx channel roundId leaderId participants payloadLen := by
  intro hclaim
  have hanswers : RoundDriver.new.Answers RoundDriver.aliceCtx 1 "bob" ["alice", "bob"] 3 :=
    ⟨Or.inl rfl, ⟨by decide, by decide, by decide⟩, by decide, by decide⟩
  have hcollected := (hclaim .const .still RoundDriver.aliceCtx RoundDriver.new
    (RoundEngine.new "alice") "#g" 1 "bob" ["alice", "bob"] 30 3).1
  have hrange := (RoundDriver.sharesCollected_iff 30 3).mp hcollected hanswers
  omega

end ChronoShift
