import ChronoShift.Identity
import ChronoShift.Net.PeerMessage
import ChronoShift.Net.SecureFrames

/-!
# The reader of a connection

The reader task of `net/connection_manager.rs`. It receives the frames of a session, decodes the
message in each, and forwards it to the inbound queue under the uid of the session, if the sender
that the message names is that uid. Messages that name no sender pass under a made-up uid, `peer@`
and the address of the peer, and are recognised by its first five characters. `validate_uid` admits
these characters as well, so a message may name a sender that is taken for a made-up one.

The decoder of messages belongs to another crate and is a parameter. The queue is shared with other
tasks; the outcome of each `try_send` is an input. What the end of the reader does to the table of
connections is a step of `runTask`.

* `connectionReader_eq_filterMap`: the loop treats the frames it has received one by one;
* `forward_eq_some_iff`: the tests that a forwarded message passes;
* `forwarded_bound_iff`: when every forwarded message is bound to the session.
-/

namespace ChronoShift

/-! ## The reader -/

/-- What the reader of a connection knows of it. The address is the text it is written as. -/
structure ReaderCtx where
  addr : String
  recvKey : Bytes32
  /-- The uid the handshake was made with. -/
  peerUid : String
  peerAuthenticated : Bool
  deriving DecidableEq

/-- The outcomes of `try_send`. -/
inductive TrySendResult where
  | ok
  | full
  | disconnected
  deriving DecidableEq

/-- One turn of the loop: no frame arrives in time, or the next one is read, and the queue answers
with `send` if the message is forwarded to it. -/
inductive ReaderTurn where
  | idle
  | read (send : TrySendResult)
  deriving DecidableEq

/-- Unauthenticated sessions may only exchange keepalives. -/
def allowedUnauthenticated : PeerMessage → Bool
  | .ping _ => true
  | .pong _ => true
  | _ => false

/-- The uid a message is routed under. -/
def extractUid (msg : PeerMessage) (addr : String) : String :=
  match msg with
  | .friendRequest fromUid _ => fromUid
  | .friendAccept fromUid => fromUid
  | .channelMessage _ fromUid _ => fromUid
  | .dcRoundShare _ _ fromUid _ _ => fromUid
  | .networkInvite fromUid _ _ _ => fromUid
  | .networkJoinRequest fromUid _ _ _ => fromUid
  | .networkJoinAccept fromUid _ _ _ => fromUid
  | .networkKick fromUid _ _ _ _ => fromUid
  | .networkSync fromUid _ _ _ _ _ => fromUid
  | .authChallenge fromUid _ _ _ _ => fromUid
  | .authResponse fromUid _ _ _ => fromUid
  | .relayRequest fromUid _ _ _ _ _ _ _ => fromUid
  | .relayResponse fromUid _ _ _ _ _ _ _ => fromUid
  | .dcRoundStart _ _ leaderId _ _ _ => leaderId
  | .leaderChange _ newLeader _ _ => newLeader
  | .roundSyncRequest fromUid _ => fromUid
  | .roundSyncResponse leaderUid _ _ _ _ => leaderUid
  -- these name nobody
  | .dcRound _ _ _ => "peer@" ++ addr
  | .dcRoundResult _ _ _ _ => "peer@" ++ addr
  | .ping _ => "peer@" ++ addr
  | .pong _ => "peer@" ++ addr

/-- The test for a made-up uid. -/
def isAnonymous (uid : String) : Bool := "peer@".toList.isPrefixOf uid.toList

/-- Relayed messages name their originator, whose signature is verified elsewhere. -/
def isRelay : PeerMessage → Bool
  | .relayRequest _ _ _ _ _ _ _ _ => true
  | .relayResponse _ _ _ _ _ _ _ _ => true
  | _ => false

/-- What the reader passes to the queue of a message it has decoded, if it does not drop it. -/
def forward (ctx : ReaderCtx) (msg : PeerMessage) : Option (String × PeerMessage) :=
  let claimedUid := extractUid msg ctx.addr
  if !validateUid claimedUid then none
  else if !ctx.peerAuthenticated && !allowedUnauthenticated msg then none
  -- the text of the uid decides whether the message is bound, not the variant
  else if !isAnonymous claimedUid && !isRelay msg && claimedUid ≠ ctx.peerUid then none
  else some (ctx.peerUid, msg)

/-- The entry that one frame adds to the queue. Payloads that are no text, and texts that are no
message, are skipped. -/
def readPayload (fromJson : String → Option PeerMessage) (ctx : ReaderCtx) (payload : Bytes)
    (send : TrySendResult) : Option (String × PeerMessage) := do
  let text ← fromUtf8 payload
  let msg ← fromJson text
  let entry ← forward ctx msg
  if send = .ok then some entry else none

/-- The reader task, from the sequence number `lastSeq` on: the entries that it adds to the queue.
It ends with the first frame that is refused or does not arrive in time. -/
def connectionReader (aead : Aead) (fromJson : String → Option PeerMessage) (ctx : ReaderCtx) :
    ℕ → Bytes → List ReaderTurn → List (String × PeerMessage)
  | _, _, [] => []
  | _, _, .idle :: _ => []
  | lastSeq, stream, .read send :: turns =>
    match recvSecureFrame aead ctx.recvKey lastSeq stream with
    | (.error _, _, _) => []
    | (.ok payload, lastSeq, rest) =>
      (readPayload fromJson ctx payload send).toList ++
        connectionReader aead fromJson ctx lastSeq rest turns

/-! ## What arrives and what passes -/

/-- The messages that arrive in a session while the queue takes entries. -/
def receivedMessages (aead : Aead) (fromJson : String → Option PeerMessage) (key : Bytes32) :
    ℕ → Bytes → List ReaderTurn → List PeerMessage
  | _, _, [] => []
  | _, _, .idle :: _ => []
  | lastSeq, stream, .read send :: turns =>
    match recvSecureFrame aead key lastSeq stream with
    | (.error _, _, _) => []
    | (.ok payload, lastSeq, rest) =>
      (if send = .ok then ((fromUtf8 payload).bind fromJson).toList else []) ++
        receivedMessages aead fromJson key lastSeq rest turns

/-- The sender a message names, if its variant names one. Relayed messages name an originator
instead. -/
def PeerMessage.namedSender : PeerMessage → Option String
  | .friendRequest fromUid _ => some fromUid
  | .friendAccept fromUid => some fromUid
  | .channelMessage _ fromUid _ => some fromUid
  | .dcRound _ _ _ => none
  | .dcRoundStart _ _ leaderId _ _ _ => some leaderId
  | .dcRoundShare _ _ peerUid _ _ => some peerUid
  | .dcRoundResult _ _ _ _ => none
  | .roundSyncRequest fromUid _ => some fromUid
  | .roundSyncResponse leaderUid _ _ _ _ => some leaderUid
  | .leaderChange _ newLeader _ _ => some newLeader
  | .networkInvite fromUid _ _ _ => some fromUid
  | .networkJoinRequest fromUid _ _ _ => some fromUid
  | .networkJoinAccept fromUid _ _ _ => some fromUid
  | .networkKick fromUid _ _ _ _ => some fromUid
  | .networkSync fromUid _ _ _ _ _ => some fromUid
  | .ping _ => none
  | .pong _ => none
  | .authChallenge fromUid _ _ _ _ => some fromUid
  | .authResponse fromUid _ _ _ => some fromUid
  | .relayRequest _ _ _ _ _ _ _ _ => none
  | .relayResponse _ _ _ _ _ _ _ _ => none

/-- A message is bound to a session: the sender it names is the peer, and without authentication it
is a keepalive. -/
structure SenderBound (ctx : ReaderCtx) (msg : PeerMessage) : Prop where
  sender_eq : ∀ sender, msg.namedSender = some sender → sender = ctx.peerUid
  keepalive : ctx.peerAuthenticated = false → ∃ ts, msg = .ping ts ∨ msg = .pong ts

section Binding

variable {aead : Aead} {fromJson : String → Option PeerMessage} {ctx : ReaderCtx}
  {msg : PeerMessage}

theorem allowedUnauthenticated_iff :
    allowedUnauthenticated msg = true ↔ ∃ ts, msg = .ping ts ∨ msg = .pong ts := by
  cases msg <;> simp [allowedUnauthenticated]

/-- A message that names its sender is routed under this name. -/
theorem extractUid_of_namedSender {sender : String} (h : msg.namedSender = some sender)
    (addr : String) : extractUid msg addr = sender := by
  cases msg <;> simp_all [PeerMessage.namedSender, extractUid]

theorem isRelay_of_namedSender {sender : String} (h : msg.namedSender = some sender) :
    isRelay msg = false := by
  cases msg <;> simp_all [PeerMessage.namedSender, isRelay]

/-- Only keepalives pass in an unauthenticated session, and they name no sender. -/
theorem namedSender_of_allowedUnauthenticated (h : allowedUnauthenticated msg = true) :
    msg.namedSender = none := by
  obtain ⟨ts, rfl | rfl⟩ := allowedUnauthenticated_iff.mp h <;> rfl

/-- The tests that a forwarded message passes. -/
theorem forward_eq_some_iff {entry : String × PeerMessage} :
    forward ctx msg = some entry ↔
      entry = (ctx.peerUid, msg) ∧ validateUid (extractUid msg ctx.addr) = true ∧
      (ctx.peerAuthenticated = true ∨ allowedUnauthenticated msg = true) ∧
      (isAnonymous (extractUid msg ctx.addr) = true ∨ isRelay msg = true ∨
        extractUid msg ctx.addr = ctx.peerUid) := by
  simp only [forward]
  grind

/-- A payload leads to an entry through the message in it, if the queue takes it. -/
theorem toList_readPayload (payload : Bytes) (send : TrySendResult) :
    (readPayload fromJson ctx payload send).toList =
      (if send = .ok then ((fromUtf8 payload).bind fromJson).toList else []).filterMap
        (forward ctx) := by
  rw [readPayload]
  cases fromUtf8 payload with
  | none => cases send <;> rfl
  | some text =>
    simp only [Option.bind_eq_bind, Option.bind_some]
    cases fromJson text with
    | none => cases send <;> rfl
    | some msg => cases send <;> cases h : forward ctx msg <;> simp [h]

/-- The loop treats the messages it has received one by one. -/
theorem connectionReader_eq_filterMap (lastSeq : ℕ) (stream : Bytes) (turns : List ReaderTurn) :
    connectionReader aead fromJson ctx lastSeq stream turns =
      (receivedMessages aead fromJson ctx.recvKey lastSeq stream turns).filterMap
        (forward ctx) := by
  induction turns generalizing lastSeq stream with
  | nil => rfl
  | cons turn turns ih =>
    cases turn with
    | idle => rfl
    | read send =>
      simp only [connectionReader, receivedMessages]
      split
      next => rfl
      next payload seq rest _ => rw [toList_readPayload, ih, List.filterMap_append]

/-- One message: it is bound if it passes, unless its sender is taken for a made-up uid. -/
theorem senderBound_of_forward_iff :
    (∀ entry, forward ctx msg = some entry → SenderBound ctx entry.2) ↔
      (ctx.peerAuthenticated = true → ∀ sender, msg.namedSender = some sender →
        validateUid sender = true → isAnonymous sender = true → sender = ctx.peerUid) := by
  constructor
  -- such a sender passes all tests, so it has to be the peer
  · intro h hauth sender hsender hvalid hanon
    have huid := extractUid_of_namedSender hsender ctx.addr
    have hpass : forward ctx msg = some (ctx.peerUid, msg) :=
      forward_eq_some_iff.mpr ⟨rfl, by rwa [huid], .inl hauth, .inl (by rwa [huid])⟩
    exact (h _ hpass).sender_eq sender hsender
  · intro h entry hpass
    obtain ⟨rfl, hvalid, hallowed, hbind⟩ := forward_eq_some_iff.mp hpass
    refine ⟨fun sender hsender => ?_, fun hauth => ?_⟩
    · rw [extractUid_of_namedSender hsender] at hvalid hbind
      -- a message with a sender is no keepalive
      have hauth : ctx.peerAuthenticated = true := by
        refine hallowed.resolve_right fun hkeep => ?_
        rw [namedSender_of_allowedUnauthenticated hkeep] at hsender
        cases hsender
      rcases hbind with hanon | hrelay | huid
      · exact h hauth sender hsender hvalid hanon
      · rw [isRelay_of_namedSender hsender] at hrelay
        cases hrelay
      · exact huid
    · rw [hauth] at hallowed
      exact allowedUnauthenticated_iff.mp (hallowed.resolve_left (by decide))

end Binding

/-- The messages of a session that the reader forwards are bound to it just if no message arrives,
in an authenticated session, that names an acceptable sender with the mark of a made-up uid other
than the peer. -/
theorem forwarded_bound_iff (aead : Aead) (fromJson : String → Option PeerMessage)
    (ctx : ReaderCtx) (stream : Bytes) (turns : List ReaderTurn) :
    (∀ entry ∈ connectionReader aead fromJson ctx 0 stream turns, SenderBound ctx entry.2) ↔
      (ctx.peerAuthenticated = true →
        ∀ msg ∈ receivedMessages aead fromJson ctx.recvKey 0 stream turns,
          ∀ sender, msg.namedSender = some sender → validateUid sender = true →
            isAnonymous sender = true → sender = ctx.peerUid) := by
  rw [connectionReader_eq_filterMap]
  simp only [List.mem_filterMap]
  constructor
  · intro h hauth msg hmsg
    exact senderBound_of_forward_iff.mp (fun entry hpass => h entry ⟨msg, hmsg, hpass⟩) hauth
  · rintro h entry ⟨msg, hmsg, hpass⟩
    exact senderBound_of_forward_iff.mpr (fun hauth => h hauth msg hmsg) entry hpass

/-! ## A sender that is taken for a made-up uid -/

/-- The text of a channel message in the name of `peer@alice`. -/
def forgedText : String :=
  "\x7b\"type\":\"channel_msg\",\"channel\":\"#g\",\"from_uid\":\"peer@alice\",\"text\":\"hi\"\x7d"

/-- The decoder, on this text. -/
def forgedFromJson (text : String) : Option PeerMessage :=
  if text = forgedText then some (.channelMessage "#g" "peer@alice" "hi") else none

/-- The session of `mallory`, who is authenticated. -/
def malloryCtx : ReaderCtx := ⟨"127.0.0.1:9000", sampleKey 1, "mallory", true⟩

/-- In the session of `mallory`, a channel message in the name of `peer@alice` is forwarded. -/
theorem forged_sender_forwarded :
    connectionReader sampleAead forgedFromJson malloryCtx 0 (sampleFrame 1 0 (asBytes forgedText))
        [.read .ok] = [("mallory", .channelMessage "#g" "peer@alice" "hi")] ∧
      ¬ SenderBound malloryCtx (.channelMessage "#g" "peer@alice" "hi") := by
  refine ⟨?_, fun h => absurd (h.sender_eq _ rfl) (by decide)⟩
  have hrecv : recvSecureFrame sampleAead malloryCtx.recvKey 0
      (sampleFrame 1 0 (asBytes forgedText)) = (.ok (asBytes forgedText), 1, []) := by
    decide +kernel
  rw [connectionReader, hrecv]
  simp only [readPayload, fromUtf8_asBytes, forgedFromJson]
  decide +kernel

end ChronoShift
