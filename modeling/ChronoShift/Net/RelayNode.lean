import ChronoShift.Net.ConnectionManager
import ChronoShift.Pgp.PgpIdentity

/-!
# Relaying nodes

The relay calls of `app.rs`: `sendRelay` originates a message, and `handleRelayMessage` verifies,
admits, and delivers or forwards one. The connection manager is shared with the tasks of the
connections, so its tables are an argument of each call, as is the clock. What is sent goes to the
queue of the network pump; a call fails to send once the pump has dropped its end.

Log lines are left out. The texts of events are kept.

* `RelayNode.sendRelay_outgoing`: a call originates at most one message, with all its hops left;
* `RelayNode.handleRelayMessage_outgoing`: a message is forwarded at most once, with one hop less.
-/

namespace ChronoShift

/-- `AppEvent`. -/
inductive AppEvent where
  | info (message : String)
  | error (message : String)
  deriving DecidableEq

/-- The signing key of an identity. -/
def Identity.signingKey (id : Identity) : Option Bytes32 := (hexDecode id.secretHex).bind toBytes32

/-- A peer has a writer in the table of active connections. -/
def ConnectionManager.isConnected (cm : ConnectionManager) (uid : String) : Bool :=
  (cm.activeConnections.lookup uid).isSome

/-- What a relay call reads from outside. -/
structure RelayEnv where
  connectionManager : ConnectionManager
  now : ℕ
  /-- The network pump still receives from the outgoing queue. -/
  queueOpen : Bool

/-- The fields of a relayed message, in either direction. -/
structure RelayFields where
  fromUid : String
  toUid : String
  originKeyHex : String
  nonce : ℕ
  timestamp : ℕ
  hopsLeft : ℕ
  signature : Bytes
  payload : Bytes
  isRequest : Bool
  deriving DecidableEq

namespace RelayFields

/-- The fields of a message, if it is a relayed one. -/
def ofMessage : PeerMessage → Option RelayFields
  | .relayRequest fromUid toUid originKeyHex nonce timestamp hopsLeft signature payload =>
    some ⟨fromUid, toUid, originKeyHex, nonce, timestamp, hopsLeft, signature, payload, true⟩
  | .relayResponse fromUid toUid originKeyHex nonce timestamp hopsLeft signature payload =>
    some ⟨fromUid, toUid, originKeyHex, nonce, timestamp, hopsLeft, signature, payload, false⟩
  | _ => none

/-- The message with these fields. -/
def toMessage (m : RelayFields) : PeerMessage :=
  if m.isRequest then
    .relayRequest m.fromUid m.toUid m.originKeyHex m.nonce m.timestamp m.hopsLeft m.signature
      m.payload
  else
    .relayResponse m.fromUid m.toUid m.originKeyHex m.nonce m.timestamp m.hopsLeft m.signature
      m.payload

@[simp]
theorem ofMessage_toMessage (m : RelayFields) : ofMessage m.toMessage = some m := by
  obtain ⟨_, _, _, _, _, _, _, _, isRequest⟩ := m
  cases isRequest <;> rfl

end RelayFields

/-- The part of the application state that relaying uses. -/
structure RelayNode where
  identity : Identity
  relay : RelayRouter
  relayVerifier : RelayVerifier
  /-- The nonce of the last request that this node has originated. -/
  relayNonce : ℕ

namespace RelayNode

/-- Where a message for `toUid` goes: straight to a connected peer, else along a relay path. -/
def nextHop (node : RelayNode) (env : RelayEnv) (toUid : String) : Option String :=
  if env.connectionManager.isConnected toUid then some toUid else node.relay.nextHop toUid

/-- Originate a request toward `toUid`. Returns the text shown to the user, and what is put in the
outgoing queue. -/
def sendRelay (prim : Primitives) (env : RelayEnv) (node : RelayNode) (toUid : String)
    (payload : Bytes) : RelayNode × Option String × List (String × PeerMessage) :=
  match node.identity.signingKey with
  | none => (node, none, [])
  | some signingKey =>
    let node := { node with relayNonce := node.relayNonce + 1 }
    let msg := buildRelayRequest prim
      ⟨signingKey, node.identity.publicHex, node.identity.uid, toUid, node.relayNonce, env.now,
        relayMaxHops⟩ payload
    match node.nextHop env toUid with
    | none => (node, none, [])
    | some nextHop =>
      if env.queueOpen then
        (node, some s!"[relay] request for {toUid} routed via {nextHop}", [(nextHop, msg)])
      else (node, none, [])

/-- The text of the key that a message is verified with: the one on record for its sender, else
the one that it carries, if that is the pinned one. -/
def resolveKey (cm : ConnectionManager) (v : RelayVerifier) (m : RelayFields) :
    Option String × RelayVerifier :=
  match cm.knownPeerKeys.lookup m.fromUid with
  | some key => (some key, v)
  | none =>
    match v.pinKey m.fromUid m.originKeyHex with
    | (.error _, v) => (none, v)
    | (.ok (), v) => (some m.originKeyHex, v)

/-- The key under which the signature of a message verifies, with its text. -/
def verifiedKey (prim : Primitives) (cm : ConnectionManager) (v : RelayVerifier)
    (m : RelayFields) : Option (Bytes32 × String) × RelayVerifier :=
  match resolveKey cm v m with
  | (none, v) => (none, v)
  | (some keyHex, v) =>
    match parseVerifyingKey prim keyHex with
    | none => (none, v)
    | some vk =>
      if verifyRelay prim vk m.fromUid m.toUid m.nonce m.timestamp m.payload m.signature then
        (some (vk, keyHex), v)
      else (none, v)

/-- Deliver an admitted message, or forward it with one hop less. -/
def deliverOrForward (env : RelayEnv) (node : RelayNode) (m : RelayFields) :
    List AppEvent × List (String × PeerMessage) :=
  if m.toUid = node.identity.uid then
    ([.info s!"relay from {m.fromUid}: {m.payload.length} bytes"], [])
  else if !validInboundHops m.hopsLeft then ([], [])
  else if m.hopsLeft = 0 then ([], [])
  else
    match node.nextHop env m.toUid with
    | none => ([], [])
    | some nextUid =>
      let forwarded := { m with hopsLeft := m.hopsLeft - 1 }.toMessage
      ([], if env.queueOpen then [(nextUid, forwarded)] else [])

/-- Verify, admit, and deliver or forward one message. Returns the events, and what is put in the
outgoing queue. -/
def handleRelayMessage (prim : Primitives) (env : RelayEnv) (node : RelayNode) (msg : PeerMessage) :
    RelayNode × List AppEvent × List (String × PeerMessage) :=
  match RelayFields.ofMessage msg with
  | none => (node, [], [])
  | some m =>
    match verifiedKey prim env.connectionManager node.relayVerifier m with
    | (none, v) => ({ node with relayVerifier := v }, [], [])
    | (some (_, keyHex), v) =>
      match v.check keyHex m.nonce m.timestamp env.now with
      | (.error _, v) => ({ node with relayVerifier := v }, [], [])
      | (.ok (), v) => ({ node with relayVerifier := v }, deliverOrForward env node m)

/-- A call originates at most one message, and it has all its hops left. -/
theorem sendRelay_outgoing (prim : Primitives) (env : RelayEnv) (node : RelayNode)
    (toUid : String) (payload : Bytes) :
    (sendRelay prim env node toUid payload).2.2 = [] ∨
      ∃ dest, ∃ m : RelayFields,
        (sendRelay prim env node toUid payload).2.2 = [(dest, m.toMessage)] ∧
          m.hopsLeft = relayMaxHops := by
  rw [sendRelay]
  split
  · exact .inl rfl
  · dsimp only
    split
    · exact .inl rfl
    · split
      · exact .inr ⟨_, ⟨_, _, _, _, _, _, _, _, true⟩, rfl, Nat.min_self relayMaxHops⟩
      · exact .inl rfl

/-- Only a message with a hop left is forwarded, once, and with one hop less. -/
theorem deliverOrForward_outgoing (env : RelayEnv) (node : RelayNode) (m : RelayFields) :
    (deliverOrForward env node m).2 = [] ∨
      ∃ dest, (deliverOrForward env node m).2 =
        [(dest, { m with hopsLeft := m.hopsLeft - 1 }.toMessage)] ∧ 0 < m.hopsLeft := by
  rw [deliverOrForward]
  split
  · exact .inl rfl
  · split
    · exact .inl rfl
    · split
      · exact .inl rfl
      next hhops =>
        split
        · exact .inl rfl
        next nextUid _ =>
          dsimp only
          split
          · exact .inr ⟨nextUid, rfl, Nat.pos_of_ne_zero hhops⟩
          · exact .inl rfl

/-- A message is forwarded at most once, and with one hop less. -/
theorem handleRelayMessage_outgoing (prim : Primitives) (env : RelayEnv) (node : RelayNode)
    (m : RelayFields) :
    (handleRelayMessage prim env node m.toMessage).2.2 = [] ∨
      ∃ dest, (handleRelayMessage prim env node m.toMessage).2.2 =
        [(dest, { m with hopsLeft := m.hopsLeft - 1 }.toMessage)] ∧ 0 < m.hopsLeft := by
  rw [handleRelayMessage, RelayFields.ofMessage_toMessage]
  dsimp only
  split
  · exact .inl rfl
  · split
    · exact .inl rfl
    · exact deliverOrForward_outgoing env node m

end RelayNode

end ChronoShift
