import ChronoShift.RoundEngine
import ChronoShift.Net.ConnectionReader
import ChronoShift.Net.RelayNode

/-!
# The incoming pump

`incoming_pump` of `main.rs`, and the event queue of `app.rs` that it feeds. The pump takes the
messages of all sessions from the inbound queue, batch by batch. Relay traffic goes to the verified
relay path and everything else to the round engine.

The events of the relay path enter a bounded queue. `emit` waits for room in it, under the lock of
the application state, and the consumer `poll_events` needs the same lock: once the queue is full
the pump stops for good. The daemon has no consumer.

Log lines are left out, and with them the uid of the session that a message came from. A release
build aborts on a panic, so that no lock is ever poisoned: the round engine panics when it answers a
start that announces a length that no `Vec` can hold.

* `incomingPump_eq_pump`: the batches do not matter;
* `pump_independent`: relay traffic and round traffic do not influence each other;
* `pump_running_iff`: which messages the pump survives, and how many relayed ones.
-/

namespace ChronoShift

/-- `EVENT_CHANNEL_CAP`. -/
def eventChannelCap : ℕ := 4096

/-- What the pump reads when it handles a message. Other tasks may have changed it since the last
one. -/
structure PumpEnv where
  identity : Identity
  relay : RelayRouter
  relayNonce : ℕ
  connectionManager : ConnectionManager
  edgeKeys : HashMap String Bytes32
  /-- The clock that relay messages are checked against. -/
  now : ℕ
  call : CallEnv
  /-- The network pump still receives from the outgoing queue. -/
  queueOpen : Bool

/-- A message from the inbound queue. -/
structure PumpMessage where
  env : PumpEnv
  msg : PeerMessage

/-- The part of the application state that is the pump's own. -/
structure PumpState where
  relayVerifier : RelayVerifier
  roundEngine : RoundEngine
  /-- The event queue, the oldest event first. -/
  events : List AppEvent
  /-- What the pump has put in the outgoing queue. -/
  outgoing : List (String × PeerMessage)

/-- The pump after some messages. -/
inductive PumpResult where
  | running (s : PumpState)
  /-- `emit` waits for room in the event queue. -/
  | blocked (s : PumpState)
  /-- A handler has panicked, and the process is gone. -/
  | aborted

namespace PumpState

/-- The state of a new process. -/
def new (uid : String) : PumpState := ⟨RelayVerifier.new, RoundEngine.new uid, [], []⟩

/-- Emit events, one after the other. -/
def emitAll (s : PumpState) : List AppEvent → PumpResult
  | [] => .running s
  | event :: events =>
    if s.events.length < eventChannelCap then
      emitAll { s with events := s.events ++ [event] } events
    else .blocked s

variable (prim : Primitives)

/-- The call of the relay path on a message. -/
def relayCall (v : RelayVerifier) (m : PumpMessage) :
    RelayNode × List AppEvent × List (String × PeerMessage) :=
  RelayNode.handleRelayMessage prim ⟨m.env.connectionManager, m.env.now, m.env.queueOpen⟩
    ⟨m.env.identity, m.env.relay, v, m.env.relayNonce⟩ m.msg

/-- The call of the round engine on a message; without a readable key there is none. -/
def roundCall (e : RoundEngine) (m : PumpMessage) : EngineResult :=
  match m.env.identity.signingKey with
  | none => { engine := e }
  | some signingKey =>
    e.handleIncoming prim m.env.call
      ⟨m.env.identity.uid, signingKey, m.env.edgeKeys, m.env.connectionManager.knownPeerKeys⟩ m.msg

/-- Handle one message. -/
def handle (s : PumpState) (m : PumpMessage) : PumpResult :=
  if isRelay m.msg then
    let (node, events, outgoing) := relayCall prim s.relayVerifier m
    emitAll { s with relayVerifier := node.relayVerifier, outgoing := s.outgoing ++ outgoing }
      events
  else
    let result := roundCall prim s.roundEngine m
    if result.panicked then .aborted
    else
      .running { s with
        roundEngine := result.engine
        outgoing := s.outgoing ++ if m.env.queueOpen then result.outgoing else [] }

/-- Handle a batch of messages. -/
def pump (s : PumpState) : List PumpMessage → PumpResult
  | [] => .running s
  | m :: messages =>
    match s.handle prim m with
    | .running s => pump s messages
    | .blocked s => .blocked s
    | .aborted => .aborted

/-- The loop of the pump: every turn drains the queue into a batch. -/
def incomingPump (s : PumpState) : List (List PumpMessage) → PumpResult
  | [] => .running s
  | batch :: batches =>
    match s.pump prim batch with
    | .running s => incomingPump s batches
    | .blocked s => .blocked s
    | .aborted => .aborted

/-- The events of the relay path, whether or not there is room for them. -/
def deliveredEvents : RelayVerifier → List PumpMessage → List AppEvent
  | _, [] => []
  | v, m :: messages =>
    if isRelay m.msg then
      (relayCall prim v m).2.1 ++ deliveredEvents (relayCall prim v m).1.relayVerifier messages
    else deliveredEvents v messages

/-- The round engine panics at one of the messages. -/
def roundsPanic : RoundEngine → List PumpMessage → Bool
  | _, [] => false
  | e, m :: messages =>
    if isRelay m.msg then roundsPanic e messages
    else (roundCall prim e m).panicked || roundsPanic (roundCall prim e m).engine messages

end PumpState

namespace PumpState

variable {prim : Primitives} {s s' : PumpState} {m : PumpMessage}

/-- A batch at which the pump stops keeps it from what comes after. -/
theorem pump_append (batch messages : List PumpMessage) :
    s.pump prim (batch ++ messages) =
      match s.pump prim batch with
      | .running s => s.pump prim messages
      | .blocked s => .blocked s
      | .aborted => .aborted := by
  induction batch generalizing s with
  | nil => rfl
  | cons m batch ih =>
    rw [List.cons_append, pump, pump]
    cases s.handle prim m with
    | running s => exact ih
    | blocked s => rfl
    | aborted => rfl

/-- The pump handles the messages in their order, however they are cut into batches. -/
theorem incomingPump_eq_pump (batches : List (List PumpMessage)) :
    s.incomingPump prim batches = s.pump prim batches.flatten := by
  induction batches generalizing s with
  | nil => rfl
  | cons batch batches ih =>
    rw [incomingPump, List.flatten_cons, pump_append]
    cases s.pump prim batch with
    | running s => exact ih
    | blocked s => rfl
    | aborted => rfl

/-- Events are emitted in their order, if there is room for all of them. -/
theorem emitAll_eq_running_iff {events : List AppEvent} :
    s.emitAll events = .running s' ↔ s' = { s with events := s.events ++ events } ∧
      (events = [] ∨ s.events.length + events.length ≤ eventChannelCap) := by
  induction events generalizing s with
  | nil =>
    rw [List.append_nil, emitAll, PumpResult.running.injEq]
    exact ⟨fun h => ⟨h.symm, .inl rfl⟩, fun h => h.1.symm⟩
  | cons event events ih =>
    rw [emitAll]
    by_cases hroom : s.events.length < eventChannelCap
    · rw [if_pos hroom, ih]
      simp only [List.append_assoc, List.singleton_append, List.length_append, List.length_cons,
        List.length_nil]
      refine and_congr_right fun _ => ?_
      cases events with
      | nil => exact iff_of_true (.inl rfl) (.inr hroom)
      | cons event' events => simp; omega
    · rw [if_neg hroom]
      refine iff_of_false ?_ ?_
      · rintro ⟨⟩
      · rintro ⟨-, hnil | hle⟩
        · cases hnil
        · rw [List.length_cons] at hle
          omega

/-! ## What a message can do -/

/-- The state after a relayed message whose events have found room. -/
def afterRelay (prim : Primitives) (s : PumpState) (m : PumpMessage) : PumpState :=
  let (node, events, outgoing) := relayCall prim s.relayVerifier m
  { s with
    relayVerifier := node.relayVerifier
    events := s.events ++ events
    outgoing := s.outgoing ++ outgoing }

/-- The state after any other message. -/
def afterRound (prim : Primitives) (s : PumpState) (m : PumpMessage) : PumpState :=
  { s with
    roundEngine := (roundCall prim s.roundEngine m).engine
    outgoing := s.outgoing ++
      if m.env.queueOpen then (roundCall prim s.roundEngine m).outgoing else [] }

/-- A relay message needs room for the events it delivers. -/
theorem handle_relay_running_iff (hrelay : isRelay m.msg = true) :
    s.handle prim m = .running s' ↔ s' = s.afterRelay prim m ∧
      ((relayCall prim s.relayVerifier m).2.1 = [] ∨
        s.events.length + (relayCall prim s.relayVerifier m).2.1.length ≤ eventChannelCap) := by
  rw [handle, if_pos hrelay]
  exact emitAll_eq_running_iff

/-- A message of a round never blocks, but it may make the engine panic. -/
theorem handle_round_running_iff (hround : isRelay m.msg = false) :
    s.handle prim m = .running s' ↔
      s' = s.afterRound prim m ∧ (roundCall prim s.roundEngine m).panicked = false := by
  rw [handle, if_neg (by rw [hround]; decide)]
  dsimp only
  cases (roundCall prim s.roundEngine m).panicked with
  | true =>
    refine iff_of_false ?_ fun h => Bool.noConfusion h.2
    rintro ⟨⟩
  | false =>
    rw [if_neg Bool.false_ne_true, PumpResult.running.injEq]
    exact ⟨fun h => ⟨h.symm, rfl⟩, fun h => h.1.symm⟩

/-- A panic is the only way in which a message of a round can stop the pump. -/
theorem handle_round_of_panicked (hround : isRelay m.msg = false)
    (hpanicked : (roundCall prim s.roundEngine m).panicked = true) :
    s.handle prim m = .aborted := by
  rw [handle, if_neg (by rw [hround]; decide)]
  exact if_pos hpanicked

/-! ## How long the pump runs -/

/-- The engine does not panic if no start announces more bytes than a `Vec` can hold. -/
theorem roundsPanic_eq_false {messages : List PumpMessage}
    (h : ∀ m ∈ messages, ∀ channel roundId leaderId participants deadlineSecs payloadLen,
      m.msg = .dcRoundStart channel roundId leaderId participants deadlineSecs payloadLen →
        payloadLen ≤ maxVecLen) (e : RoundEngine) :
    roundsPanic prim e messages = false := by
  induction messages generalizing e with
  | nil => rfl
  | cons m messages ih =>
    obtain ⟨hm, hmessages⟩ := List.forall_mem_cons.mp h
    rw [roundsPanic]
    split
    · exact ih hmessages e
    rw [Bool.or_eq_false_iff]
    refine ⟨Bool.eq_false_iff.mpr fun hpanicked => ?_, ih hmessages _⟩
    rw [roundCall] at hpanicked
    split at hpanicked
    · cases hpanicked
    obtain ⟨channel, leaderId, participants, deadlineSecs, payloadLen, hmsg, -, -, hlong⟩ :=
      RoundEngine.handleIncoming_panicked_iff.mp hpanicked
    exact absurd (hm _ _ _ _ _ _ hmsg) (not_le.mpr hlong)

/-- A batch must not make the engine panic, and needs room for all the events it delivers. -/
theorem pump_running_iff (hs : s.events.length ≤ eventChannelCap) (messages : List PumpMessage) :
    (∃ s', s.pump prim messages = .running s') ↔
      roundsPanic prim s.roundEngine messages = false ∧
        s.events.length + (deliveredEvents prim s.relayVerifier messages).length ≤
          eventChannelCap := by
  induction messages generalizing s with
  | nil => exact iff_of_true ⟨s, rfl⟩ ⟨rfl, hs⟩
  | cons m messages ih =>
    rw [pump, deliveredEvents, roundsPanic]
    cases hrelay : isRelay m.msg with
    | false =>
      rw [if_neg Bool.false_ne_true, if_neg Bool.false_ne_true]
      cases hpanicked : (roundCall prim s.roundEngine m).panicked with
      | true =>
        rw [handle_round_of_panicked hrelay hpanicked, Bool.true_or]
        refine iff_of_false ?_ fun h => Bool.noConfusion h.1
        rintro ⟨_, ⟨⟩⟩
      | false =>
        rw [(handle_round_running_iff hrelay).mpr ⟨rfl, hpanicked⟩, Bool.false_or]
        exact @ih (s.afterRound prim m) hs
    | true =>
      rw [if_pos rfl, if_pos rfl, List.length_append, ← Nat.add_assoc]
      have hroom : (relayCall prim s.relayVerifier m).2.1 = [] ∨
          s.events.length + (relayCall prim s.relayVerifier m).2.1.length ≤ eventChannelCap ↔
            s.events.length + (relayCall prim s.relayVerifier m).2.1.length ≤ eventChannelCap :=
        or_iff_right_of_imp fun hnil => by rwa [hnil]
      have hlen : (s.afterRelay prim m).events.length =
          s.events.length + (relayCall prim s.relayVerifier m).2.1.length :=
        List.length_append
      by_cases hle : s.events.length + (relayCall prim s.relayVerifier m).2.1.length ≤
          eventChannelCap
      · rw [(handle_relay_running_iff hrelay).mpr ⟨rfl, hroom.mpr hle⟩, ← hlen]
        exact @ih (s.afterRelay prim m) (hlen.trans_le hle)
      -- the first event that finds no room stops the pump
      · refine iff_of_false ?_ fun h => absurd h.2 (by omega)
        cases hhandle : s.handle prim m with
        | running next =>
          exact absurd (hroom.mp ((handle_relay_running_iff hrelay).mp hhandle).2) hle
        | blocked next =>
          rintro ⟨_, ⟨⟩⟩
        | aborted =>
          rintro ⟨_, ⟨⟩⟩

/-- Relay fields make a relay message. -/
theorem isRelay_toMessage (m : RelayFields) : isRelay m.toMessage = true := by
  rw [RelayFields.toMessage]
  split <;> rfl

/-- A relayed message is determined by its fields. -/
theorem exists_fields_of_isRelay {msg : PeerMessage} (h : isRelay msg = true) :
    ∃ fields : RelayFields, msg = fields.toMessage := by
  cases msg with
  | relayRequest fromUid toUid originKeyHex nonce timestamp hopsLeft signature payload =>
    exact ⟨⟨_, _, _, _, _, _, _, _, true⟩, rfl⟩
  | relayResponse fromUid toUid originKeyHex nonce timestamp hopsLeft signature payload =>
    exact ⟨⟨_, _, _, _, _, _, _, _, false⟩, rfl⟩
  | _ => cases h

/-- The relay path sends relayed messages only. -/
theorem isRelay_relayCall (v : RelayVerifier) (hrelay : isRelay m.msg = true) :
    ∀ p ∈ (relayCall prim v m).2.2, isRelay p.2 = true := by
  obtain ⟨fields, hfields⟩ := exists_fields_of_isRelay hrelay
  intro p hp
  rw [relayCall, hfields] at hp
  obtain hnone | ⟨dest, hone, -⟩ := RelayNode.handleRelayMessage_outgoing prim
    ⟨m.env.connectionManager, m.env.now, m.env.queueOpen⟩
    ⟨m.env.identity, m.env.relay, v, m.env.relayNonce⟩ fields
  · rw [hnone] at hp
    cases hp
  · rw [hone, List.mem_singleton] at hp
    rw [hp]
    exact isRelay_toMessage _

/-- The round engine sends no relayed messages. -/
theorem isRelay_handleIncoming {env : CallEnv} {e : RoundEngine} {ctx : RoundContext}
    (msg : PeerMessage) :
    ∀ p ∈ (e.handleIncoming prim env ctx msg).outgoing, isRelay p.2 = false := by
  cases msg with
  | dcRoundStart channel roundId leaderId participants deadlineSecs payloadLen =>
    change ∀ p ∈ (e.handleRoundStart prim ctx channel roundId leaderId participants
      payloadLen).outgoing, _
    unfold RoundEngine.handleRoundStart
    split
    · simp
    · dsimp only
      split
      · simp
      · split <;> simp [isRelay]
  | dcRoundShare channel roundId peerUid xored signature =>
    change ∀ p ∈ (e.handleRoundShare prim env ctx channel roundId peerUid xored signature).outgoing,
      _
    unfold RoundEngine.handleRoundShare
    repeat' split
    all_goals simp [isRelay]
  | dcRoundResult channel roundId extractedMessage leaderSignature =>
    change ∀ p ∈ (e.handleRoundResult prim channel roundId extractedMessage).outgoing, _
    unfold RoundEngine.handleRoundResult
    split <;> simp
  | _ =>
    intro p hp
    cases hp

/-- The engine emits no relay messages. -/
theorem isRelay_roundCall (e : RoundEngine) (m : PumpMessage) :
    ∀ p ∈ (roundCall prim e m).outgoing, isRelay p.2 = false := by
  rw [roundCall]
  split
  · intro p hp
    cases hp
  · exact isRelay_handleIncoming m.msg

/-- The state is put together from the states of two pumps, one for relay traffic and one for round
traffic. -/
structure Splits (s relayed rounds : PumpState) : Prop where
  relayVerifier : s.relayVerifier = relayed.relayVerifier
  events : s.events = relayed.events
  roundEngine : s.roundEngine = rounds.roundEngine
  relayedOut : s.outgoing.filter (fun p => isRelay p.2) =
    relayed.outgoing.filter fun p => isRelay p.2
  roundOut : s.outgoing.filter (fun p => !isRelay p.2) =
    rounds.outgoing.filter fun p => !isRelay p.2

/-- A state splits into itself and itself. -/
theorem Splits.refl (s : PumpState) : s.Splits s s := ⟨rfl, rfl, rfl, rfl, rfl⟩

/-- A relayed message is handled by the one pump as by the whole. -/
theorem Splits.handle_relay {relayed rounds : PumpState} (h : s.Splits relayed rounds)
    (hrelay : isRelay m.msg = true) (hhandle : s.handle prim m = .running s') :
    ∃ relayed', relayed.handle prim m = .running relayed' ∧ s'.Splits relayed' rounds := by
  obtain ⟨rfl, hroom⟩ := (handle_relay_running_iff hrelay).mp hhandle
  rw [h.relayVerifier, h.events] at hroom
  refine ⟨_, (handle_relay_running_iff hrelay).mpr ⟨rfl, hroom⟩, ?_⟩
  have hout := @isRelay_relayCall prim m relayed.relayVerifier hrelay
  have hnone : (relayCall prim relayed.relayVerifier m).2.2.filter (fun p => !isRelay p.2) = [] :=
    List.filter_eq_nil_iff.mpr fun p hp => by rw [hout p hp]; decide
  constructor
  · simp only [afterRelay, h.relayVerifier]
  · simp only [afterRelay, h.relayVerifier, h.events]
  · exact h.roundEngine
  · simp only [afterRelay, h.relayVerifier, List.filter_append, h.relayedOut]
  · simp only [afterRelay, h.relayVerifier, List.filter_append, h.roundOut, hnone, List.append_nil]

/-- Any other message is handled by the other pump as by the whole. -/
theorem Splits.handle_round {relayed rounds : PumpState} (h : s.Splits relayed rounds)
    (hround : isRelay m.msg = false) (hhandle : s.handle prim m = .running s') :
    ∃ rounds', rounds.handle prim m = .running rounds' ∧ s'.Splits relayed rounds' := by
  obtain ⟨rfl, hpanicked⟩ := (handle_round_running_iff hround).mp hhandle
  rw [h.roundEngine] at hpanicked
  refine ⟨_, (handle_round_running_iff hround).mpr ⟨rfl, hpanicked⟩, ?_⟩
  have hout := @isRelay_roundCall prim rounds.roundEngine m
  have hnone : (if m.env.queueOpen then (roundCall prim rounds.roundEngine m).outgoing
      else []).filter (fun p => isRelay p.2) = [] := by
    split
    · exact List.filter_eq_nil_iff.mpr fun p hp => by rw [hout p hp]; decide
    · rfl
  constructor
  · exact h.relayVerifier
  · exact h.events
  · simp only [afterRound, h.roundEngine]
  · simp only [afterRound, h.roundEngine, List.filter_append, h.relayedOut, hnone, List.append_nil]
  · simp only [afterRound, h.roundEngine, List.filter_append, h.roundOut]

/-- A batch splits into its relay messages and the others. -/
theorem Splits.pump {relayed rounds : PumpState} (h : s.Splits relayed rounds)
    {messages : List PumpMessage} (hpump : s.pump prim messages = .running s') :
    ∃ relayed' rounds',
      relayed.pump prim (messages.filter fun m => isRelay m.msg) = .running relayed' ∧
      rounds.pump prim (messages.filter fun m => !isRelay m.msg) = .running rounds' ∧
      s'.Splits relayed' rounds' := by
  induction messages generalizing s relayed rounds with
  | nil =>
    cases hpump
    exact ⟨relayed, rounds, rfl, rfl, h⟩
  | cons m messages ih =>
    rw [PumpState.pump] at hpump
    split at hpump
    next next hhandle =>
      cases hrelay : isRelay m.msg with
      | true =>
        -- the one pump goes on, and the other one does not see the message
        obtain ⟨relayed', hrelayed, hnext⟩ := h.handle_relay hrelay hhandle
        obtain ⟨relayed'', rounds', hpump', hrounds, hlast⟩ := ih hnext hpump
        refine ⟨relayed'', rounds', ?_, ?_, hlast⟩
        · rw [List.filter_cons, if_pos hrelay, PumpState.pump, hrelayed]
          exact hpump'
        · rwa [List.filter_cons, if_neg (by rw [hrelay]; decide)]
      | false =>
        obtain ⟨rounds', hrounds', hnext⟩ := h.handle_round hrelay hhandle
        obtain ⟨relayed', rounds'', hrelayed, hrounds, hlast⟩ := ih hnext hpump
        refine ⟨relayed', rounds'', ?_, ?_, hlast⟩
        · rwa [List.filter_cons, if_neg (by rw [hrelay]; decide)]
        · rw [List.filter_cons, if_pos (by rw [hrelay]; decide), PumpState.pump, hrounds']
          exact hrounds
    · cases hpump
    · cases hpump

/-- Relay traffic and round traffic do not influence each other, in whatever way they interleave:
what the pump makes of the relay messages is what it makes of them alone, and what it makes of the
others is what it makes of those alone. -/
theorem pump_independent {messages : List PumpMessage}
    (hpump : s.pump prim messages = .running s') :
    ∃ relayed rounds,
      s.pump prim (messages.filter fun m => isRelay m.msg) = .running relayed ∧
      s.pump prim (messages.filter fun m => !isRelay m.msg) = .running rounds ∧
      s'.Splits relayed rounds :=
  (Splits.refl s).pump hpump

/-- What the pump of `node` reads; nobody is on record. -/
def sampleEnv : PumpEnv where
  identity := ⟨"node", String.ofList (List.replicate 64 '0'), "", 0⟩
  relay := .new
  relayNonce := 0
  connectionManager := .new
  edgeKeys := ∅
  now := 0
  call := .still
  queueOpen := true

/-- A relayed message for the node, and the announcement of its first round. -/
def sampleMessages : List PumpMessage :=
  [⟨sampleEnv, .relayRequest "bob" "node" (String.ofList (List.replicate 64 'a')) 1 0 8 [] [7]⟩,
    ⟨sampleEnv, .dcRoundStart "#g" 1 "carol" ["node"] 30 64⟩]

example : deliveredEvents .const .new sampleMessages = [.info "relay from bob: 1 bytes"] := by
  decide +kernel

/-- A relay message and one of a round. -/
theorem pump_independent_sample :
    ∃ s' relayed rounds : PumpState,
      (new "node").pump .const (sampleMessages.filter fun m => isRelay m.msg) = .running relayed ∧
      (new "node").pump .const (sampleMessages.filter fun m => !isRelay m.msg) = .running rounds ∧
      s'.Splits relayed rounds := by
  have hshort : ∀ m ∈ sampleMessages,
      ∀ channel roundId leaderId participants deadlineSecs payloadLen,
        m.msg = .dcRoundStart channel roundId leaderId participants deadlineSecs payloadLen →
          payloadLen ≤ maxVecLen := by
    intro m hm channel roundId leaderId participants deadlineSecs payloadLen hmsg
    obtain rfl | rfl := List.mem_pair.mp hm
    · cases hmsg
    · cases hmsg
      decide
  obtain ⟨s', hpump⟩ := (@pump_running_iff .const (new "node") (Nat.zero_le _) sampleMessages).mpr
    ⟨roundsPanic_eq_false hshort _, by decide +kernel⟩
  exact ⟨s', pump_independent hpump⟩

end PumpState

end ChronoShift
