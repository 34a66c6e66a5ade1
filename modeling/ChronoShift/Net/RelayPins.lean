import ChronoShift.Net.RelayQuota

/-!
# What a rejected relay message leaves behind

A relayed message is checked in four steps: the key that it carries is pinned, or compared with the
pinned one; the key is parsed; the signature is verified; the message is admitted. The first step
comes before the signature, so a message that nobody has signed takes the pin of its sender, if that
is neither on record nor pinned. Of a sender on record, the key that the message carries is not
read.

* `RelayVerifier.same_check_iff`: admission changes the tables if and only if it succeeds;
* `RelayNode.rejected_unchanged_iff`: when a message without a valid signature changes nothing.
-/

namespace ChronoShift

namespace RelayVerifier

/-- The tables hold the same entries. -/
structure Same (v v' : RelayVerifier) : Prop where
  lastNonce : ∀ keyHex, v.lastNonce.lookup keyHex = v'.lastNonce.lookup keyHex
  rate : ∀ keyHex, v.rate.lookup keyHex = v'.rate.lookup keyHex
  keyPins : ∀ sender, v.keyPins.lookup sender = v'.keyPins.lookup sender

theorem Same.refl (v : RelayVerifier) : v.Same v := ⟨fun _ => rfl, fun _ => rfl, fun _ => rfl⟩

/-- The message has a new nonce, is in time, and within the rate of its key. -/
def Admits (v : RelayVerifier) (keyHex : String) (nonce timestamp now : ℕ) : Prop :=
  (∀ last, v.lastNonce.lookup keyHex = some last → last < nonce) ∧
    absDiff now timestamp ≤ relayMaxAgeSecs ∧ (v.window keyHex now).2 < relayMaxPerWindow

variable {v : RelayVerifier} {keyHex : String} {nonce timestamp now : ℕ}

/-- The window of a key over its rate is the one in the table, which has not been cleared. -/
theorem window_of_full (h : relayMaxPerWindow ≤ (v.window keyHex now).2) :
    v.trimmedRate = v.rate ∧ v.rate.lookup keyHex = some (v.window keyHex now) := by
  -- a new window has no messages yet
  have hlookup : v.trimmedRate.lookup keyHex = some (v.window keyHex now) := by
    rw [window] at h ⊢
    cases hentry : v.trimmedRate.lookup keyHex with
    | none =>
      rw [hentry, Option.getD_none, ite_self] at h
      cases h
    | some entry =>
      rw [hentry, Option.getD_some] at h
      dsimp only [Option.getD_some] at h ⊢
      split at h
      next => cases h
      next hnew => rw [if_neg hnew]
  have htrimmed : v.trimmedRate = v.rate := by
    rw [trimmedRate]
    split
    next hfull =>
      rw [trimmedRate, if_pos hfull] at hlookup
      cases hlookup
    next => rfl
  rw [htrimmed] at hlookup
  exact ⟨htrimmed, hlookup⟩

/-- Admission changes the tables if and only if it succeeds. -/
theorem same_check_iff :
    (v.check keyHex nonce timestamp now).2.Same v ↔ ¬ v.Admits keyHex nonce timestamp now := by
  rw [Admits, ← check_ok_iff]
  obtain ⟨e, h⟩ | ⟨e, hfull, h⟩ | ⟨hnew, -, -, h⟩ := v.check_cases keyHex nonce timestamp now
  · rw [h]
    exact iff_of_true (.refl v) nofun
  -- the window that is entered is the one that is there
  · rw [h]
    obtain ⟨htrimmed, hlookup⟩ := window_of_full hfull
    refine iff_of_true ⟨fun _ => rfl, fun keyHex' => ?_, fun _ => rfl⟩ nofun
    rw [htrimmed, ToMathlib.HashMap.lookup_insert_ite]
    split
    next hkey => rw [hkey, hlookup]
    next => rfl
  · rw [h]
    refine iff_of_false (fun hsame => ?_) (not_not_intro rfl)
    have hlast := hsame.lastNonce keyHex
    rw [AList.lookup_insert] at hlast
    exact lt_irrefl nonce (hnew nonce hlast.symm)

/-- A sender that is not pinned is pinned to the key. -/
theorem same_pinKey_iff {sender : String} :
    (v.pinKey sender keyHex).2.Same v ↔ (v.keyPins.lookup sender).isSome := by
  rw [pinKey]
  cases hpin : v.keyPins.lookup sender with
  | none =>
    refine iff_of_false (fun hsame => ?_) Bool.false_ne_true
    have hpinned := hsame.keyPins sender
    rw [AList.lookup_insert, hpin] at hpinned
    cases hpinned
  | some prev =>
    dsimp only
    split
    · exact iff_of_true (.refl v) rfl
    · exact iff_of_true (.refl v) rfl

end RelayVerifier

namespace RelayNode

variable {prim : Primitives} {env : RelayEnv} {node : RelayNode} {cm : ConnectionManager}
  {v : RelayVerifier} {m : RelayFields}

/-- The signature verifies under the key that the node verifies the message with. -/
def SignatureVerifies (prim : Primitives) (cm : ConnectionManager) (m : RelayFields) : Prop :=
  ∃ vk, parseVerifyingKey prim (keyText cm m) = some vk ∧
    verifyRelay prim vk m.fromUid m.toUid m.nonce m.timestamp m.payload m.signature = true

/-- The carried key does not parse, or the signature does not verify. -/
def Unverified (prim : Primitives) (cm : ConnectionManager) (m : RelayFields) : Prop :=
  parseVerifyingKey prim m.originKeyHex = none ∨ ¬ SignatureVerifies prim cm m

/-- The sender is on record, and the message is not signed with the key on record or not to be
admitted; or the sender is not on record, and pinned. -/
def NothingToEnter (prim : Primitives) (env : RelayEnv) (v : RelayVerifier) (m : RelayFields) :
    Prop :=
  match env.connectionManager.knownPeerKeys.lookup m.fromUid with
  | some keyHex => SignatureVerifies prim env.connectionManager m →
      ¬ v.Admits keyHex m.nonce m.timestamp env.now
  | none => (v.keyPins.lookup m.fromUid).isSome

variable (prim) in
/-- The signature leaves the tables alone. -/
theorem verifiedKey_snd : (verifiedKey prim cm v m).2 = (resolveKey cm v m).2 := by
  rw [verifiedKey]
  split
  next hresolve => rw [hresolve]
  next hresolve =>
    rw [hresolve]
    split
    · rfl
    · split <;> rfl

/-- Of a sender on record, nothing is pinned. -/
theorem resolveKey_of_known {keyHex : String}
    (hknown : cm.knownPeerKeys.lookup m.fromUid = some keyHex) :
    resolveKey cm v m = (some keyHex, v) := by
  rw [resolveKey, hknown]

/-- Of a sender that is not on record, the key is pinned before it is read. -/
theorem resolveKey_snd_of_unknown (hknown : cm.knownPeerKeys.lookup m.fromUid = none) :
    (resolveKey cm v m).2 = (v.pinKey m.fromUid m.originKeyHex).2 := by
  rw [resolveKey, hknown]
  dsimp only
  split
  next hpin => rw [hpin]
  next hpin => rw [hpin]

/-- A message of a sender on record verifies under the key on record, or not at all. -/
theorem verifiedKey_of_known {keyHex : String}
    (hknown : cm.knownPeerKeys.lookup m.fromUid = some keyHex)
    (hverifies : SignatureVerifies prim cm m) :
    ∃ vk, verifiedKey prim cm v m = (some (vk, keyHex), v) := by
  obtain ⟨vk, hparse, hverify⟩ := hverifies
  rw [keyText, hknown, Option.getD_some] at hparse
  refine ⟨vk, ?_⟩
  rw [verifiedKey, resolveKey_of_known hknown]
  dsimp only
  rw [hparse]
  dsimp only
  rw [if_pos hverify]

theorem verifiedKey_eq_none (hverifies : ¬ SignatureVerifies prim cm m) :
    (verifiedKey prim cm v m).1 = none := by
  refine Option.eq_none_iff_forall_ne_some.mpr fun ⟨vk, keyHex⟩ hsome => hverifies ?_
  obtain ⟨rfl, hparse, hverify⟩ := verifiedKey_eq_some hsome
  exact ⟨vk, hparse, hverify⟩

/-- Without a valid signature, only the pin is left behind. -/
theorem relayVerifier_of_not_verifies
    (hverifies : ¬ SignatureVerifies prim env.connectionManager m) :
    (handleRelayMessage prim env node m.toMessage).1.relayVerifier =
      (resolveKey env.connectionManager node.relayVerifier m).2 := by
  rw [handleRelayMessage, RelayFields.ofMessage_toMessage, ← verifiedKey_snd prim]
  dsimp only
  split
  next hkey => rw [hkey]
  next hkey =>
    have hnone := verifiedKey_eq_none (v := node.relayVerifier) hverifies
    rw [hkey] at hnone
    cases hnone

/-- With a valid signature of a sender on record, admission decides. -/
theorem relayVerifier_of_known {keyHex : String}
    (hknown : env.connectionManager.knownPeerKeys.lookup m.fromUid = some keyHex)
    (hverifies : SignatureVerifies prim env.connectionManager m) :
    (handleRelayMessage prim env node m.toMessage).1.relayVerifier =
      (node.relayVerifier.check keyHex m.nonce m.timestamp env.now).2 := by
  obtain ⟨vk, hkey⟩ := verifiedKey_of_known (v := node.relayVerifier) hknown hverifies
  rw [handleRelayMessage, RelayFields.ofMessage_toMessage]
  dsimp only
  rw [hkey]
  dsimp only
  split
  next hcheck => rw [hcheck]
  next hcheck => rw [hcheck]

/-- A relayed message whose carried key does not parse, or whose signature does not verify, leaves
the tables as they are if and only if its sender is on record and the message is not signed with the
key on record or is not to be admitted, or its sender is not on record and already pinned. -/
theorem rejected_unchanged_iff (prim : Primitives) (env : RelayEnv) (node : RelayNode)
    (m : RelayFields) (hbad : Unverified prim env.connectionManager m) :
    (handleRelayMessage prim env node m.toMessage).1.relayVerifier.Same node.relayVerifier ↔
      NothingToEnter prim env node.relayVerifier m := by
  rw [NothingToEnter]
  cases hknown : env.connectionManager.knownPeerKeys.lookup m.fromUid with
  | some keyHex =>
    by_cases hverifies : SignatureVerifies prim env.connectionManager m
    · rw [relayVerifier_of_known hknown hverifies, RelayVerifier.same_check_iff]
      exact ⟨fun hnot _ => hnot, fun hnot => hnot hverifies⟩
    · rw [relayVerifier_of_not_verifies hverifies, resolveKey_of_known hknown]
      exact iff_of_true (.refl _) fun h => absurd h hverifies
  | none =>
    -- the key of the signature is the carried one
    have hverifies : ¬ SignatureVerifies prim env.connectionManager m := by
      rcases hbad with hparse | hverifies
      · rintro ⟨vk, hvk, -⟩
        rw [keyText, hknown, Option.getD_none, hparse] at hvk
        cases hvk
      · exact hverifies
    rw [relayVerifier_of_not_verifies hverifies, resolveKey_snd_of_unknown hknown]
    exact RelayVerifier.same_pinKey_iff

/-- A message of `bob` that is not signed, with a key that is none. -/
def junkFields : RelayFields := ⟨"bob", "z", "junk", 1, 0, relayMaxHops, [], [], true⟩

/-- Once `bob` is pinned, such a message changes nothing. -/
theorem rejected_unchanged_of_pinned :
    (handleRelayMessage .const sampleEnv
      { sampleNode with relayVerifier := (RelayVerifier.new.pinKey "bob" (sampleText 'a')).2 }
      junkFields.toMessage).1.relayVerifier.Same
        (RelayVerifier.new.pinKey "bob" (sampleText 'a')).2 :=
  (rejected_unchanged_iff .const sampleEnv
    { sampleNode with relayVerifier := (RelayVerifier.new.pinKey "bob" (sampleText 'a')).2 }
    junkFields (.inl (by decide))).mpr rfl

/-- A new node pins `bob` to a key that is none. -/
theorem rejected_message_pins :
    ¬ ∀ (prim : Primitives) (env : RelayEnv) (node : RelayNode) (m : RelayFields),
      Unverified prim env.connectionManager m →
        (handleRelayMessage prim env node m.toMessage).1.relayVerifier.Same node.relayVerifier := by
  intro hclaim
  have hsame := hclaim .const sampleEnv sampleNode junkFields (.inl (by decide))
  have hpinned := hsame.keyPins "bob"
  revert hpinned
  decide

end RelayNode

end ChronoShift
