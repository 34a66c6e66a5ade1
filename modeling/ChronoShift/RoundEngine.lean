import ChronoShift.DcNet.RoundDriver

/-!
# The leader-based round engine

`RoundEngine` of `round_engine.rs`. A leader starts a round, every participant sends its share to
the leader, and the leader extracts the message and announces the result. Rounds are numbered by
one counter, which a participant only advances by one.

A call computes at most one share of our own. The program sends it or submits it to its own
collector; the model also records it in the result of the call (`EngineResult.computed`), with the
round and the edge keys its masks are derived from, and whether the call panics
(`EngineResult.panicked`).

* `RoundEngine.call_counted`: what a call does to the counter, and which share it computes;
* `RoundEngine.handleIncoming_panicked_iff`: which messages make the engine panic.
-/

namespace ChronoShift

open ToMathlib

/-- Events for the user interface. -/
inductive RoundEvent where
  | messageReceived (channel text : String) (roundId : ℕ)
  | messageExtracted (channel text : String) (roundId : ℕ)
  deriving DecidableEq

/-- A share, with what its masks are derived from. -/
structure ShareUse where
  roundId : ℕ
  edgeKeys : List Bytes32
  share : Bytes
  deriving DecidableEq

/-- The edge keys that mask a share of `myUid`. -/
def maskKeys (edgeKeys : HashMap String Bytes32) (myUid : String) (participants : List String) :
    List Bytes32 :=
  (participants.filter (· ≠ myUid)).filterMap fun uid => edgeKeys.lookup uid

/-- The state of the engine. -/
structure RoundEngine where
  tracker : RoundTracker
  collectors : HashMap ℕ RoundCollector
  myUid : String
  leaderUid : Option String

/-- The result of a call. -/
structure EngineResult where
  engine : RoundEngine
  event : Option RoundEvent := none
  outgoing : Outgoing := []
  /-- The share of our own that the call has computed. -/
  computed : Option ShareUse := none
  /-- The call does not return. A release build ends here; `engine` is what the call leaves. -/
  panicked : Bool := false

namespace RoundEngine

/-- An engine before its first round. -/
def new (myUid : String) : RoundEngine := ⟨RoundTracker.new, ∅, myUid, none⟩

/-- Queue a text for a later round. -/
def queueMessage (e : RoundEngine) (text : String) : RoundEngine :=
  { e with tracker := e.tracker.queueMessage text }

section Calls

variable (prim : Primitives) (env : CallEnv) (e : RoundEngine) (ctx : RoundContext)

/-- Our own share of a round, on record. -/
def useOf (roundId : ℕ) (participants : List String) (share : Bytes) : ShareUse :=
  ⟨roundId, maskKeys ctx.edgeKeys e.myUid participants, share⟩

/-- Start a new round as its leader. Our own share, with the first queued text if there is one, goes
into the collector of the round. -/
def startRoundAsLeader (channel : String) (participants : List String) : EngineResult :=
  let tracker := e.tracker.nextRound
  let roundId := tracker.currentRoundId
  let deadline := min 30 maxRoundDeadlineSecs
  let collector :=
    RoundCollector.new channel roundId participants deadline defaultPayloadLen env.now
  -- the queued text is taken out even if the share cannot be computed
  let (message, tracker) := tracker.dequeueMessage
  let share := computeXorShareSecure prim roundId e.myUid participants (message.map asBytes)
    defaultPayloadLen ctx.edgeKeys
  let collector := match share with
    | some share => collector.trySubmit e.myUid share
    | none => collector
  let start := PeerMessage.dcRoundStart channel roundId e.myUid participants deadline
    defaultPayloadLen
  { engine := { e with tracker := tracker, collectors := e.collectors.insert roundId collector }
    outgoing := participants.map fun p => (p, start)
    computed := share.map (e.useOf ctx roundId participants) }

/-- Answer the announcement of the next round with our share. -/
def handleRoundStart (channel : String) (roundId : ℕ) (leaderId : String)
    (participants : List String) (payloadLen : ℕ) : EngineResult :=
  match e.tracker.markSeen roundId with
  | (false, _) => { engine := e }
  | (true, tracker) =>
    -- unlike the driver, a participant puts its own queued text into the leader's round
    let (message, tracker) := tracker.dequeueMessage
    let e := { e with tracker := tracker, leaderUid := some leaderId }
    -- the announced length has no upper bound, and the queued text is gone by now
    if SharePanics e.myUid participants payloadLen then { engine := e, panicked := true }
    else
      match computeXorShareSecure prim roundId e.myUid participants (message.map asBytes)
        payloadLen ctx.edgeKeys with
      | none => { engine := e }
      | some share =>
        let signature := signShare prim ctx.signingKey channel roundId share
        { engine := e
          outgoing := [(leaderId, .dcRoundShare channel roundId e.myUid share signature)]
          computed := some (e.useOf ctx roundId participants share) }

/-- The signature of a share is wrong, under a readable key on record. -/
def badSignature (channel : String) (roundId : ℕ) (peerUid : String) (xored signature : Bytes) :
    Bool :=
  match (ctx.knownKeys.lookup peerUid).bind (parseVerifyingKey prim) with
  | some vk => !verifyShareSignature prim vk channel roundId xored signature
  | none => false

/-- Collect a participant's share. Once the round is complete or expired, its message is extracted
and announced. -/
def handleRoundShare (channel : String) (roundId : ℕ) (peerUid : String)
    (xored signature : Bytes) : EngineResult :=
  if badSignature prim ctx channel roundId peerUid xored signature then { engine := e }
  else
    match e.collectors.lookup roundId with
    | none => { engine := e }
    | some collector =>
      match collector.submitShare peerUid xored with
      | .error _ => { engine := e }
      | .ok collector =>
        let stored := { e with collectors := e.collectors.insert roundId collector }
        let removed := { e with collectors := e.collectors.erase roundId }
        if collector.isComplete || collector.isExpired (env.checkedAt roundId) then
          match collector.extractMessage with
          | none => { engine := stored }
          -- an expired round is extracted from the shares that have arrived
          | some payload =>
            match unpadMessage prim payload with
            | none => { engine := removed }
            | some bytes =>
              let result := PeerMessage.dcRoundResult channel roundId payload []
              { engine := removed
                event := some (.messageExtracted channel
                  ((fromUtf8 bytes).getD "(binary data)") roundId)
                outgoing := (env.uidOrder.visit collector.participants).map fun p => (p, result) }
        else { engine := stored }

/-- Accept the announced result of a round. -/
def handleRoundResult (channel : String) (roundId : ℕ) (extractedMessage : Bytes) : EngineResult :=
  match unpadMessage prim extractedMessage with
  | none => { engine := e }
  | some bytes =>
    -- the result of the next round moves the counter past it, without a share
    { engine := { e with tracker := (e.tracker.markSeen roundId).2 }
      event := some (.messageReceived channel ((fromUtf8 bytes).getD "(binary data)") roundId) }

/-- Handle a message from the network. -/
def handleIncoming (msg : PeerMessage) : EngineResult :=
  match msg with
  | .dcRoundStart channel roundId leaderId participants _ payloadLen =>
    e.handleRoundStart prim ctx channel roundId leaderId participants payloadLen
  | .dcRoundShare channel roundId peerUid xored signature =>
    e.handleRoundShare prim env ctx channel roundId peerUid xored signature
  | .dcRoundResult channel roundId extractedMessage _ =>
    e.handleRoundResult prim channel roundId extractedMessage
  | _ => { engine := e }

end Calls

/-- A call of the engine. -/
inductive Call where
  | startRoundAsLeader (channel : String) (participants : List String)
  | handleIncoming (msg : PeerMessage)

/-- Carry out a call. -/
def call (prim : Primitives) (env : CallEnv) (e : RoundEngine) (ctx : RoundContext) :
    Call → EngineResult
  | .startRoundAsLeader channel participants =>
    e.startRoundAsLeader prim env ctx channel participants
  | .handleIncoming msg => e.handleIncoming prim env ctx msg

/-! ## The counter and the computed share -/

variable {prim : Primitives} {env : CallEnv} {e : RoundEngine} {ctx : RoundContext}

/-- The participants of the next round, if the call is about it. -/
def nextParticipants (e : RoundEngine) : Call → Option (List String)
  | .startRoundAsLeader _ participants => some participants
  | .handleIncoming (.dcRoundStart _ roundId _ participants _ _) =>
    if roundId = e.tracker.currentRoundId + 1 then some participants else none
  | .handleIncoming _ => none

/-- A share of the next round, masked by the keys of its other participants. -/
def IsNextShare (e : RoundEngine) (ctx : RoundContext) (call : Call) (use : ShareUse) : Prop :=
  ∃ participants, e.nextParticipants call = some participants ∧
    use.roundId = e.tracker.currentRoundId + 1 ∧
    use.edgeKeys = maskKeys ctx.edgeKeys e.myUid participants

/-- A text that is taken from the queue leaves the counter alone. -/
@[simp]
theorem dequeueMessage_currentRoundId (t : RoundTracker) :
    t.dequeueMessage.2.currentRoundId = t.currentRoundId := by
  unfold RoundTracker.dequeueMessage
  split <;> rfl

/-- The effect of a call on the counter: it stays or advances without a share, or it advances by one
and a share of the new round is computed. -/
def Counted (e : RoundEngine) (ctx : RoundContext) (call : Call) (result : EngineResult) : Prop :=
  (result.computed = none ∧
      e.tracker.currentRoundId ≤ result.engine.tracker.currentRoundId) ∨
    ∃ use, result.computed = some use ∧ e.IsNextShare ctx call use ∧
      result.engine.tracker.currentRoundId = e.tracker.currentRoundId + 1

/-- A leader advances the counter before it computes its share. -/
theorem startRoundAsLeader_counted (channel : String) (participants : List String) :
    e.Counted ctx (.startRoundAsLeader channel participants)
      (e.startRoundAsLeader prim env ctx channel participants) := by
  have hcounter : (e.startRoundAsLeader prim env ctx channel
      participants).engine.tracker.currentRoundId = e.tracker.currentRoundId + 1 := by
    simp [startRoundAsLeader]
  cases hcomputed : (e.startRoundAsLeader prim env ctx channel participants).computed with
  | none => exact Or.inl ⟨hcomputed, by omega⟩
  | some use =>
    refine Or.inr ⟨use, hcomputed, ⟨participants, rfl, ?_⟩, hcounter⟩
    obtain ⟨share, -, rfl⟩ := Option.map_eq_some_iff.mp hcomputed
    exact ⟨rfl, rfl⟩

/-- A start of another round than the next one is ignored; the next one is shared at most once. -/
theorem handleRoundStart_counted (channel : String) (roundId : ℕ) (leaderId : String)
    (participants : List String) (deadlineSecs payloadLen : ℕ) :
    e.Counted ctx
      (.handleIncoming
        (.dcRoundStart channel roundId leaderId participants deadlineSecs payloadLen))
      (e.handleRoundStart prim ctx channel roundId leaderId participants payloadLen) := by
  unfold handleRoundStart RoundTracker.markSeen
  by_cases hnext : roundId = e.tracker.currentRoundId + 1
  · rw [if_pos hnext]
    dsimp only
    have hmoved : e.tracker.currentRoundId ≤
        RoundTracker.currentRoundId (RoundTracker.dequeueMessage
          { e.tracker with currentRoundId := roundId }).2 := by
      rw [dequeueMessage_currentRoundId]
      exact hnext ▸ Nat.le_succ _
    -- the counter has moved without a share when the call panics, or an edge key is missing
    split
    · exact Or.inl ⟨rfl, hmoved⟩
    · split
      · exact Or.inl ⟨rfl, hmoved⟩
      · refine Or.inr ⟨_, rfl, ⟨participants, if_pos hnext, hnext, rfl⟩, ?_⟩
        simpa using hnext
  · rw [if_neg hnext]
    exact Or.inl ⟨rfl, le_rfl⟩

/-- A collected share leaves the counter alone. -/
theorem handleRoundShare_counted (call : Call) (channel : String) (roundId : ℕ) (peerUid : String)
    (xored signature : Bytes) :
    e.Counted ctx call
      (e.handleRoundShare prim env ctx channel roundId peerUid xored signature) := by
  refine Or.inl ?_
  -- all branches return the tracker as it was
  unfold handleRoundShare
  repeat' split
  all_goals exact ⟨rfl, le_rfl⟩

/-- A result of the next round advances the counter, and no share is computed for it. -/
theorem handleRoundResult_counted (call : Call) (channel : String) (roundId : ℕ)
    (extractedMessage : Bytes) :
    e.Counted ctx call (e.handleRoundResult prim channel roundId extractedMessage) := by
  refine Or.inl ?_
  unfold handleRoundResult RoundTracker.markSeen
  split
  · exact ⟨rfl, le_rfl⟩
  · refine ⟨rfl, ?_⟩
    dsimp only
    split <;> simp_all

/-- No call moves the counter back, and a share is computed for the round it advances to. -/
theorem call_counted (call : Call) : e.Counted ctx call (e.call prim env ctx call) := by
  cases call with
  | startRoundAsLeader channel participants =>
    exact startRoundAsLeader_counted channel participants
  | handleIncoming msg =>
    cases msg with
    | dcRoundStart channel roundId leaderId participants deadlineSecs payloadLen =>
      exact handleRoundStart_counted channel roundId leaderId participants deadlineSecs payloadLen
    | dcRoundShare channel roundId peerUid xored signature =>
      exact handleRoundShare_counted _ channel roundId peerUid xored signature
    | dcRoundResult channel roundId extractedMessage =>
      exact handleRoundResult_counted _ channel roundId extractedMessage
    | _ => exact Or.inl ⟨rfl, le_rfl⟩

/-! ## Lengths that panic -/

/-- The answer to a start of the next round panics if its share does. -/
theorem handleRoundStart_panicked_iff (channel : String) (roundId : ℕ) (leaderId : String)
    (participants : List String) (payloadLen : ℕ) :
    (e.handleRoundStart prim ctx channel roundId leaderId participants payloadLen).panicked = true ↔
      roundId = e.tracker.currentRoundId + 1 ∧ SharePanics e.myUid participants payloadLen := by
  rw [handleRoundStart, RoundTracker.markSeen]
  by_cases hnext : roundId = e.tracker.currentRoundId + 1
  · rw [if_pos hnext]
    dsimp only
    by_cases hpanics : SharePanics e.myUid participants payloadLen
    · rw [if_pos hpanics]
      exact iff_of_true rfl ⟨hnext, hpanics⟩
    -- with or without a share the call returns
    · rw [if_neg hpanics]
      refine iff_of_false ?_ fun h => hpanics h.2
      split <;> exact Bool.false_ne_true
  · rw [if_neg hnext]
    exact iff_of_false Bool.false_ne_true fun h => hnext h.1

/-- Only a start of the next round makes the engine panic, and only if it is answered. -/
theorem handleIncoming_panicked_iff {msg : PeerMessage} :
    (e.handleIncoming prim env ctx msg).panicked = true ↔
      ∃ channel leaderId participants deadlineSecs payloadLen,
        msg = .dcRoundStart channel (e.tracker.currentRoundId + 1) leaderId participants
          deadlineSecs payloadLen ∧ SharePanics e.myUid participants payloadLen := by
  constructor
  · intro hpanicked
    cases msg with
    | dcRoundStart channel roundId leaderId participants deadlineSecs payloadLen =>
      obtain ⟨rfl, hpanics⟩ := (handleRoundStart_panicked_iff channel roundId leaderId participants
        payloadLen).mp hpanicked
      exact ⟨channel, leaderId, participants, deadlineSecs, payloadLen, rfl, hpanics⟩
    | dcRoundShare channel roundId peerUid xored signature =>
      rw [handleIncoming, handleRoundShare] at hpanicked
      repeat' split at hpanicked
      all_goals cases hpanicked
    | dcRoundResult channel roundId extractedMessage leaderSignature =>
      rw [handleIncoming, handleRoundResult] at hpanicked
      split at hpanicked <;> cases hpanicked
    | _ => cases hpanicked
  · rintro ⟨channel, leaderId, participants, deadlineSecs, payloadLen, rfl, hpanics⟩
    exact (handleRoundStart_panicked_iff channel _ leaderId participants payloadLen).mpr
      ⟨rfl, hpanics⟩

end RoundEngine

end ChronoShift
