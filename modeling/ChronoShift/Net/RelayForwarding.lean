import ChronoShift.Net.RelayPins

/-!
# What a forwarded relay message carries

A node verifies a relayed message under the key that it has on record for the sender, or else under
the key that the message carries. What it forwards is the message with one hop less, and with the
key that it came with. A recipient who never met the sender has only this key.

* `RelayNode.verified_of_forwarded`: what is forwarded has been verified, and is as it came in but
  for the hops;
* `RelayNode.forwarded_verifiable_iff`: when the key it carries is the one it was verified under.
-/

namespace ChronoShift

namespace RelayNode

/-- The message is as it came in, with one hop less, and the text of its key decodes to `vk`. -/
structure StaysVerifiable (prim : Primitives) (vk : Bytes32) (m forwarded : RelayFields) :
    Prop where
  isRequest : forwarded.isRequest = m.isRequest
  fromUid : forwarded.fromUid = m.fromUid
  toUid : forwarded.toUid = m.toUid
  nonce : forwarded.nonce = m.nonce
  timestamp : forwarded.timestamp = m.timestamp
  payload : forwarded.payload = m.payload
  signature : forwarded.signature = m.signature
  hopsLeft : forwarded.hopsLeft + 1 = m.hopsLeft
  originKey : parseVerifyingKey prim forwarded.originKeyHex = some vk

/-- The key under which the node has verified the signature of `m`. -/
def VerifiedUnder (prim : Primitives) (env : RelayEnv) (node : RelayNode) (m : RelayFields)
    (vk : Bytes32) : Prop :=
  ∃ keyHex, (verifiedKey prim env.connectionManager node.relayVerifier m).1 = some (vk, keyHex)

/-- The sender is not on record, or the carried key decodes to the same key as the one on record. -/
def CarriesKeyOnRecord (prim : Primitives) (cm : ConnectionManager) (m : RelayFields) : Prop :=
  ∀ keyHex, cm.knownPeerKeys.lookup m.fromUid = some keyHex →
    parseVerifyingKey prim m.originKeyHex = parseVerifyingKey prim keyHex

variable {prim : Primitives} {env : RelayEnv} {node : RelayNode} {m : RelayFields} {vk : Bytes32}
  {dest : String} {msg : PeerMessage}

/-- The key a message was verified under is the one that its sender's text stands for. -/
theorem VerifiedUnder.parse_keyText (h : VerifiedUnder prim env node m vk) :
    parseVerifyingKey prim (keyText env.connectionManager m) = some vk := by
  obtain ⟨keyHex, hkey⟩ := h
  obtain ⟨rfl, hparse, -⟩ := verifiedKey_eq_some hkey
  exact hparse

/-- What is forwarded has been verified. -/
theorem verified_of_forwarded
    (h : (dest, msg) ∈ (handleRelayMessage prim env node m.toMessage).2.2) :
    (∃ vk, VerifiedUnder prim env node m vk) ∧ 0 < m.hopsLeft ∧
      msg = { m with hopsLeft := m.hopsLeft - 1 }.toMessage := by
  refine ⟨?_, ?_⟩
  · cases hkey : (verifiedKey prim env.connectionManager node.relayVerifier m).1 with
    | some verified => exact ⟨verified.1, verified.2, hkey⟩
    | none =>
      rw [handleRelayMessage, RelayFields.ofMessage_toMessage] at h
      dsimp only at h
      split at h
      next => cases h
      next heq =>
        rw [heq] at hkey
        cases hkey
  · obtain hnil | ⟨dest', hsingle, hhops⟩ := handleRelayMessage_outgoing prim env node m
    · rw [hnil] at h
      cases h
    · rw [hsingle, List.mem_singleton] at h
      cases h
      exact ⟨hhops, rfl⟩

/-- Among the senders on record, the carried key decides whether the message can be verified with
it. -/
theorem parse_originKey_iff (h : VerifiedUnder prim env node m vk) :
    parseVerifyingKey prim m.originKeyHex = some vk ↔
      CarriesKeyOnRecord prim env.connectionManager m := by
  have hparse := h.parse_keyText
  rw [keyText] at hparse
  cases hknown : env.connectionManager.knownPeerKeys.lookup m.fromUid with
  | some keyHex =>
    rw [hknown, Option.getD_some] at hparse
    rw [← hparse]
    refine ⟨fun heq keyHex' hknown' => ?_, fun hcarries => hcarries keyHex hknown⟩
    cases hknown.symm.trans hknown'
    exact heq
  | none =>
    rw [hknown, Option.getD_none] at hparse
    refine iff_of_true hparse fun keyHex hknown' => ?_
    cases hknown.symm.trans hknown'

/-- A message that a node forwards has the same variant, sender, recipient, nonce, timestamp,
payload and signature, one hop less, and a key that decodes to the one it was verified under, if and
only if its sender is not on record, or the key it carries is the one on record. -/
theorem forwarded_verifiable_iff (prim : Primitives) (env : RelayEnv) (node : RelayNode)
    (m : RelayFields) {dest : String} {msg : PeerMessage}
    (hforwarded : (dest, msg) ∈ (handleRelayMessage prim env node m.toMessage).2.2) :
    (∃ vk forwarded, VerifiedUnder prim env node m vk ∧
      RelayFields.ofMessage msg = some forwarded ∧ StaysVerifiable prim vk m forwarded) ↔
        CarriesKeyOnRecord prim env.connectionManager m := by
  obtain ⟨⟨vk, hverified⟩, hhops, rfl⟩ := verified_of_forwarded hforwarded
  constructor
  · rintro ⟨vk', forwarded, hverified', hfields, hstays⟩
    rw [RelayFields.ofMessage_toMessage] at hfields
    cases hfields
    exact (parse_originKey_iff hverified').mp hstays.originKey
  · intro hcarries
    exact ⟨vk, _, hverified, RelayFields.ofMessage_toMessage _, rfl, rfl, rfl, rfl, rfl, rfl, rfl,
      Nat.sub_add_cancel hhops, (parse_originKey_iff hverified).mpr hcarries⟩

/-- A node with a path to `z`. -/
def routingNode : RelayNode := { sampleNode with relay := RelayRouter.new.addPath "z" "r" }

/-- A node that has a key of `bob` on record. -/
def bobOnRecord : RelayEnv :=
  { sampleEnv with connectionManager := ConnectionManager.new.registerPeer "bob" (sampleText 'a') }

theorem forwarded_of_verified {keyHex : String} {v : RelayVerifier}
    (hverified : verifiedKey prim env.connectionManager node.relayVerifier m =
      (some (vk, keyHex), v))
    (hok : (v.check keyHex m.nonce m.timestamp env.now).1 = .ok ()) :
    (handleRelayMessage prim env node m.toMessage).2 = deliverOrForward env node m := by
  rw [handleRelayMessage, RelayFields.ofMessage_toMessage]
  dsimp only
  rw [hverified]
  dsimp only
  split
  next herror =>
    rw [herror] at hok
    cases hok
  next => rfl

/-- A message of a sender that is not on record. -/
theorem forwarded_verifiable_new :
    (∃ vk forwarded, VerifiedUnder .const sampleEnv routingNode (sampleFields "bob" 'a') vk ∧
      RelayFields.ofMessage { sampleFields "bob" 'a' with hopsLeft := 7 }.toMessage =
        some forwarded ∧ StaysVerifiable .const vk (sampleFields "bob" 'a') forwarded) ↔
          CarriesKeyOnRecord .const sampleEnv.connectionManager (sampleFields "bob" 'a') := by
  have hverified := @verifiedKey_of_unpinned .const sampleEnv.connectionManager
    routingNode.relayVerifier (sampleFields "bob" 'a') _ rfl rfl
    (parse_sampleText 'a' (Or.inl rfl)) rfl
  have hmem : ("r", { sampleFields "bob" 'a' with hopsLeft := 7 }.toMessage) ∈
      (handleRelayMessage .const sampleEnv routingNode (sampleFields "bob" 'a').toMessage).2.2 := by
    rw [forwarded_of_verified hverified (by rfl)]
    decide
  exact forwarded_verifiable_iff .const sampleEnv routingNode (sampleFields "bob" 'a') hmem

/-- A message under the key on record that carries another text: the node forwards it with a key
that nobody can read. -/
theorem forwarded_without_key :
    ¬ ∀ (prim : Primitives) (env : RelayEnv) (node : RelayNode) (m : RelayFields) (dest : String)
      (msg : PeerMessage), (dest, msg) ∈ (handleRelayMessage prim env node m.toMessage).2.2 →
        ∃ vk forwarded, VerifiedUnder prim env node m vk ∧
          RelayFields.ofMessage msg = some forwarded ∧ StaysVerifiable prim vk m forwarded := by
  intro hclaim
  have hverifies : SignatureVerifies .const bobOnRecord.connectionManager junkFields :=
    ⟨.replicate 32 0xaa, parse_sampleText 'a' (Or.inl rfl), rfl⟩
  have hknown : bobOnRecord.connectionManager.knownPeerKeys.lookup junkFields.fromUid =
      some (sampleText 'a') := rfl
  obtain ⟨vk, hverified⟩ := verifiedKey_of_known (v := routingNode.relayVerifier) hknown hverifies
  have hmem : ("r", { junkFields with hopsLeft := 7 }.toMessage) ∈
      (handleRelayMessage .const bobOnRecord routingNode junkFields.toMessage).2.2 := by
    rw [forwarded_of_verified hverified (by rfl)]
    decide
  obtain ⟨vk', forwarded, -, hfields, hstays⟩ :=
    hclaim .const bobOnRecord routingNode junkFields _ _ hmem
  rw [RelayFields.ofMessage_toMessage] at hfields
  cases hfields
  have hjunk : parseVerifyingKey .const "junk" = none := by decide
  cases hjunk.symm.trans hstays.originKey

end RelayNode

end ChronoShift
