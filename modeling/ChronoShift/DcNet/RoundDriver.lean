import ChronoShift.DcNet.RoundNetwork

/-!
# The mesh round driver

`RoundDriver` is the per-channel state machine of `dcnet/round_driver.rs`. A member with a
message initiates a round by announcing it. Every other participant answers with a neutral share,
the initiator sends its message-bearing share last, and every node XORs all shares.

A call reads three things that are not in the driver's state: the clock, and the iteration orders
of the hash containers. They are the fields of `CallEnv`, and may be different in every call.
Functions return the new state next to their result.
-/

namespace ChronoShift

open ToMathlib

/-- Payload length of channel rounds. -/
def channelPayloadLen : ℕ := 4096

/-- Deadline of channel rounds in seconds. -/
def channelRoundDeadlineSecs : ℕ := 30

/-- Retries before a queued message is dropped. -/
def maxConflictRetries : ℕ := 3

/-- What the caller passes into every driver call. -/
structure RoundContext where
  myUid : String
  signingKey : Bytes32
  /-- The edge key shared with each friend. -/
  edgeKeys : HashMap String Bytes32
  /-- The identity keys on record, in hexadecimal. -/
  knownKeys : HashMap String String

/-- What a call reads from its surroundings. -/
structure CallEnv where
  /-- The order in which the participant sets are visited. -/
  uidOrder : IterOrder String
  /-- The order in which the collector table is visited. -/
  idOrder : IterOrder ℕ
  /-- The clock reading when a collector is created. -/
  now : ℕ
  /-- The clock reading when the collector of a round is tested for expiry. -/
  checkedAt : ℕ → ℕ

/-- A clock that stands still, for evaluating the model on fixed inputs. -/
def CallEnv.still : CallEnv := ⟨.stored, .stored, 0, fun _ => 0⟩

/-- A message extracted from a completed round. -/
structure ExtractedMessage where
  channel : String
  text : String
  roundId : ℕ
  deriving DecidableEq

/-- Messages for the connection manager, each with its target uid. -/
abbrev Outgoing := List (String × PeerMessage)

/-- The result of handling one message: texts to display and messages to send. -/
structure RoundAction where
  extracted : List ExtractedMessage := []
  outgoing : Outgoing := []

/-- The state of a driver. -/
structure RoundDriver where
  tracker : RoundTracker
  /-- The queued message, kept until a round completes. -/
  pendingMessage : Option Bytes
  /-- The round we initiated, while it is in flight. -/
  pendingRoundId : Option ℕ
  retries : ℕ
  /-- The collectors of the rounds we take part in. -/
  collectors : HashMap ℕ RoundCollector
  /-- Rounds whose text has been emitted. -/
  emitted : List ℕ
  /-- Our message-bearing share of the round we initiated, with its signature. -/
  myShare : Option (Bytes × Bytes)
  myShareBroadcast : Bool
  /-- Messages produced by retries, delivered with the next result. -/
  pendingOutgoing : Outgoing
  /-- The round we lost a conflict against. -/
  retryAfterPeer : Option ℕ

namespace RoundDriver

/-- A driver that has not taken part in any round. -/
def new : RoundDriver where
  tracker := RoundTracker.new
  pendingMessage := none
  pendingRoundId := none
  retries := 0
  collectors := ∅
  emitted := []
  myShare := none
  myShareBroadcast := false
  pendingOutgoing := []
  retryAfterPeer := none

/-- One copy of `msg` for every participant but ourselves. -/
def toOthers (myUid : String) (participants : List String) (msg : PeerMessage) : Outgoing :=
  (participants.filter (· ≠ myUid)).map fun uid => (uid, msg)

/-- The state after our own round `roundId` has been set up. -/
def beginRound (d : RoundDriver) (roundId : ℕ) (collector : RoundCollector) (text share
    signature : Bytes) : RoundDriver :=
  { d with
    collectors := d.collectors.insert roundId collector
    pendingMessage := some text
    pendingRoundId := some roundId
    myShare := some (share, signature)
    myShareBroadcast := false
    retries := 0 }

/-- Initiate a round that carries `text`. Only the announcement is sent; the counter has advanced
even when the share cannot be computed. -/
def initiate (prim : Primitives) (env : CallEnv) (d : RoundDriver) (channel text : String)
    (participants : List String) (ctx : RoundContext) : RoundDriver × Except String Outgoing :=
  if (asBytes text).length + 36 > channelPayloadLen then
    (d, .error s!"message too long (max {channelPayloadLen - 36} bytes)")
  else if participants.length < 2 ∨ ctx.myUid ∉ participants then
    (d, .error "not a participant of this channel")
  else
    -- from here on the round id is used up, also when the share is refused
    let d := { d with tracker := d.tracker.nextRound }
    let roundId := d.tracker.currentRoundId
    match computeXorShareSecure prim roundId ctx.myUid participants (some (asBytes text))
      channelPayloadLen ctx.edgeKeys with
    | none => (d, .error "cannot participate securely: missing edge keys")
    | some share =>
      let signature := signShare prim ctx.signingKey channel roundId share
      let collector := RoundCollector.new channel roundId participants channelRoundDeadlineSecs
        channelPayloadLen env.now
      let start := PeerMessage.dcRoundStart channel roundId ctx.myUid participants
        channelRoundDeadlineSecs channelPayloadLen
      (d.beginRound roundId collector (asBytes text) share signature,
        .ok (toOthers ctx.myUid participants start))

/-- Abort our initiated round without dropping the queued message. -/
def abortPendingRound (d : RoundDriver) : RoundDriver :=
  { d with
    collectors := match d.pendingRoundId with
      | some id => d.collectors.erase id
      | none => d.collectors
    pendingRoundId := none
    myShare := none
    myShareBroadcast := false }

/-- Initiate again with the queued message, a bounded number of times. -/
def retryPending (prim : Primitives) (env : CallEnv) (d : RoundDriver) (channel : String)
    (participants : List String) (ctx : RoundContext) : RoundDriver :=
  if d.retries ≥ maxConflictRetries then { d with pendingMessage := none }
  else
    let d := { d with retries := d.retries + 1 }
    match d.pendingMessage with
    | none => d
    | some text =>
      -- a successful `initiate` starts the retry count again
      match initiate prim env d channel (fromUtf8Lossy text) participants ctx with
      | (d, .ok out) => { d with pendingOutgoing := d.pendingOutgoing ++ out }
      | (d, .error _) => d

/-- Our own round is over: forget it and its share. -/
def clearPending (d : RoundDriver) : RoundDriver :=
  { d with pendingRoundId := none, myShare := none, myShareBroadcast := false }

/-- Drop the expired round `id`, retrying our message if the round was ours. -/
def expireRound (prim : Primitives) (env : CallEnv) (ctx : RoundContext) (d : RoundDriver)
    (id : ℕ) : RoundDriver :=
  let wasMine := d.pendingRoundId = some id
  let participants := match d.collectors.lookup id with
    | some c => env.uidOrder.visit c.participants
    | none => []
  let channel := match d.collectors.lookup id with
    | some c => c.channel
    | none => ""
  let d := { d with collectors := d.collectors.erase id }
  if wasMine then
    if participants.isEmpty then d.clearPending
    else retryPending prim env d.clearPending channel participants ctx
  else d

/-- The rounds whose collector has expired. -/
def expiredRounds (env : CallEnv) (d : RoundDriver) : List ℕ :=
  (env.idOrder.visit d.collectors.keys).filter fun id =>
    match d.collectors.lookup id with
    | some c => c.isExpired (env.checkedAt id)
    | none => false

/-- Drop all expired rounds. -/
def dropExpired (prim : Primitives) (env : CallEnv) (ctx : RoundContext) (d : RoundDriver) :
    RoundDriver :=
  (d.expiredRounds env).foldl (expireRound prim env ctx) d

/-- Take part in a round with a neutral share. -/
def participate (prim : Primitives) (env : CallEnv) (d : RoundDriver) (channel : String)
    (roundId : ℕ) (participants : List String) (deadlineSecs payloadLen : ℕ)
    (ctx : RoundContext) : RoundDriver × RoundAction :=
  if ctx.myUid ∉ participants then (d, {})
  else
    match computeXorShareSecure prim roundId ctx.myUid participants none payloadLen
      ctx.edgeKeys with
    | none => (d, {})
    | some share =>
      let signature := signShare prim ctx.signingKey channel roundId share
      let shareMsg := PeerMessage.dcRoundShare channel roundId ctx.myUid share signature
      let collector := RoundCollector.new channel roundId participants deadlineSecs payloadLen
        env.now
      -- a share of an unclamped length is refused, and the refusal is ignored
      ({ d with collectors := d.collectors.insert roundId (collector.trySubmit ctx.myUid share) },
        { outgoing := toOthers ctx.myUid participants shareMsg })

/-- Handle an announced round. A round id that is not the next one is refused, unless it is the
id of our own pending round and the other initiator wins the tie-break. -/
def onRoundStart (prim : Primitives) (env : CallEnv) (d : RoundDriver) (channel : String)
    (roundId : ℕ) (leaderId : String) (participants : List String)
    (deadlineSecs payloadLen : ℕ) (ctx : RoundContext) : RoundDriver × RoundAction :=
  match d.tracker.markSeen roundId with
  | (true, tracker) =>
    participate prim env { d with tracker := tracker } channel roundId participants deadlineSecs
      payloadLen ctx
  | (false, _) =>
    -- stale, duplicate or far-future, unless another initiator picked our pending id
    let conflict := d.pendingRoundId = some roundId ∧ leaderId ≠ ctx.myUid
    if conflict ∧ leaderId < ctx.myUid then
      participate prim env { d.abortPendingRound with retryAfterPeer := some roundId } channel
        roundId participants deadlineSecs payloadLen ctx
    else (d, {})

/-- The signature check of an incoming share: only peers with a parsable key on record are
checked. -/
def shareAdmitted (prim : Primitives) (ctx : RoundContext) (channel : String) (roundId : ℕ)
    (peerUid : String) (share signature : Bytes) : Bool :=
  match ctx.knownKeys.lookup peerUid with
  | none => true
  | some keyHex =>
    match parseVerifyingKey prim keyHex with
    | some vk => verifyShareSignature prim vk channel roundId share signature
    -- an unparsable key on record is logged, and the share is accepted unverified
    | none => true

/-- If the round is ours and every other share has arrived, broadcast our own share. -/
def broadcastOwnShare (env : CallEnv) (d : RoundDriver) (channel : String) (roundId : ℕ)
    (collector : RoundCollector) (ctx : RoundContext) :
    RoundDriver × RoundCollector × Outgoing :=
  if d.pendingRoundId = some roundId ∧ d.myShareBroadcast = false ∧
      collector.missingParticipants = [ctx.myUid] then
    match d.myShare with
    | none => (d, collector, [])
    | some (share, signature) =>
      let shareMsg := PeerMessage.dcRoundShare channel roundId ctx.myUid share signature
      let collector := collector.trySubmit ctx.myUid share
      ({ d with myShareBroadcast := true }, collector,
        toOthers ctx.myUid (env.uidOrder.visit collector.participants) shareMsg)
  else (d, collector, [])

/-- The text a complete collector yields, if the extraction succeeds. -/
def extractText (prim : Primitives) (collector : RoundCollector) : Option String :=
  (collector.extractMessage.bind (unpadMessage prim)).bind fromUtf8

/-- The extraction of a complete round: its text, unless the round has been emitted before. -/
def extraction (prim : Primitives) (d : RoundDriver) (channel : String) (roundId : ℕ)
    (collector : RoundCollector) : List ExtractedMessage :=
  match extractText prim collector with
  | some text => if roundId ∈ d.emitted then [] else [⟨channel, text, roundId⟩]
  | none => []

/-- Settle our own message when round `roundId` is complete: it is done if the round delivered a
text, and retried otherwise. -/
def settleOwn (prim : Primitives) (env : CallEnv) (d : RoundDriver) (channel : String)
    (roundId : ℕ) (extractedOk : Bool) (participants : List String) (ctx : RoundContext) :
    RoundDriver :=
  if d.pendingRoundId = some roundId then
    if extractedOk then { d.clearPending with pendingMessage := none }
    else retryPending prim env d.clearPending channel participants ctx
  else d

/-- Retry our message if we lost a conflict against round `roundId`. -/
def retryAfter (prim : Primitives) (env : CallEnv) (d : RoundDriver) (channel : String)
    (roundId : ℕ) (participants : List String) (ctx : RoundContext) : RoundDriver :=
  if d.retryAfterPeer = some roundId then
    let d := { d with retryAfterPeer := none }
    if d.pendingMessage.isSome then retryPending prim env d channel participants ctx else d
  else d

/-- Finish a complete round: emit its text once, drop the collector, and settle or retry our own
message. -/
def finishRound (prim : Primitives) (env : CallEnv) (d : RoundDriver) (channel : String)
    (roundId : ℕ) (collector : RoundCollector) (ctx : RoundContext) :
    RoundDriver × List ExtractedMessage :=
  -- what is emitted is decided before the collector is dropped and a retry changes the state
  let extracted := extraction prim d channel roundId collector
  let participants := env.uidOrder.visit collector.participants
  let d := { d with
    emitted := if extracted.isEmpty then d.emitted else roundId :: d.emitted
    collectors := d.collectors.erase roundId }
  let d := settleOwn prim env d channel roundId (!extracted.isEmpty) participants ctx
  (retryAfter prim env d channel roundId participants ctx, extracted)

/-- Handle an incoming share. -/
def onRoundShare (prim : Primitives) (env : CallEnv) (d : RoundDriver) (channel : String)
    (roundId : ℕ) (peerUid : String) (share signature : Bytes) (ctx : RoundContext) :
    RoundDriver × RoundAction :=
  if shareAdmitted prim ctx channel roundId peerUid share signature = false then (d, {})
  else
    match d.collectors.lookup roundId with
    | none => (d, {})
    | some collector =>
      match collector.submitShare peerUid share with
      | .error _ => (d, {})
      | .ok collector =>
        let (d, collector, outgoing) := broadcastOwnShare env d channel roundId collector ctx
        let d := { d with collectors := d.collectors.insert roundId collector }
        if collector.isComplete then
          let (d, extracted) := finishRound prim env d channel roundId collector ctx
          (d, { extracted := extracted, outgoing := outgoing })
        else (d, { outgoing := outgoing })

/-- Handle one incoming message, delivering the messages of retries with the result. -/
def handle (prim : Primitives) (env : CallEnv) (d : RoundDriver) (msg : PeerMessage)
    (ctx : RoundContext) : RoundDriver × RoundAction :=
  -- expired rounds go first, so a retry may already have moved the counter
  let d := dropExpired prim env ctx d
  let (d, action) := match msg with
    | .dcRoundStart channel roundId leaderId participants deadlineSecs payloadLen =>
      onRoundStart prim env d channel roundId leaderId participants deadlineSecs payloadLen ctx
    | .dcRoundShare channel roundId peerUid xoredPayload signature =>
      onRoundShare prim env d channel roundId peerUid xoredPayload signature ctx
    | _ => (d, {})
  ({ d with pendingOutgoing := [] },
    { action with outgoing := action.outgoing ++ d.pendingOutgoing })

/-- Take the buffered messages of retries. -/
def drainPendingOutgoing (d : RoundDriver) : RoundDriver × Outgoing :=
  ({ d with pendingOutgoing := [] }, d.pendingOutgoing)

end RoundDriver

/-! ## Runs of a driver -/

/-- One call on a driver. -/
inductive DriverCall where
  | initiate (channel text : String) (participants : List String)
  | handle (msg : PeerMessage)
  | drainPendingOutgoing

/-- A call with the context and the surroundings it is made in. -/
structure DriverInput where
  env : CallEnv
  ctx : RoundContext
  call : DriverCall

namespace RoundDriver

/-- Make one call. A refused `initiate` sends nothing. -/
def call (prim : Primitives) (d : RoundDriver) (input : DriverInput) : RoundDriver × RoundAction :=
  match input.call with
  | .initiate channel text participants =>
    match initiate prim input.env d channel text participants input.ctx with
    | (d, .ok out) => (d, { outgoing := out })
    | (d, .error _) => (d, {})
  | .handle msg => handle prim input.env d msg input.ctx
  | .drainPendingOutgoing => (d.drainPendingOutgoing.1, { outgoing := d.drainPendingOutgoing.2 })

/-- Make a sequence of calls, collecting what each of them returns. -/
def run (prim : Primitives) (d : RoundDriver) : List DriverInput → RoundDriver × List RoundAction
  | [] => (d, [])
  | input :: inputs =>
    let (d, action) := call prim d input
    let (d, actions) := run prim d inputs
    (d, action :: actions)

end RoundDriver

/-- The shares among outgoing messages, as pairs of a round id and a payload. -/
def sharesOf (out : Outgoing) : List (ℕ × Bytes) :=
  out.filterMap fun
    | (_, .dcRoundShare _ roundId _ xoredPayload _) => some (roundId, xoredPayload)
    | _ => none

/-- The shares sent by the `i`-th call of a run. -/
def sharesAt (actions : List RoundAction) (i : ℕ) : List (ℕ × Bytes) :=
  match actions[i]? with
  | some action => sharesOf action.outgoing
  | none => []

end ChronoShift
