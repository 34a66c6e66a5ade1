import ChronoShift.DcNet.Share
import ChronoShift.Net.PeerMessage

/-!
# The session handshake

The handshake of `net/session.rs`. The initiator sends a challenge, signed over its ephemeral key
and a nonce; the responder answers with its own ephemeral key, signed over both keys and the nonce;
both derive the keys of the session.

Random values are arguments, and the frames are passed as the messages they decode to. A function
that sends a message and goes on returns the message next to its result.

* `readChallenge_eq_ok`: what an accepted challenge has passed;
* `outboundFinish_eq_ok`, `inboundFinish_eq_ok`: the sessions of both sides.
-/

namespace ChronoShift

/-- The kinds of errors a handshake ends with. -/
inductive ErrorKind where
  | invalidData
  | permissionDenied
  deriving DecidableEq

/-- An error with its text. -/
structure HandshakeError where
  kind : ErrorKind
  text : String
  deriving DecidableEq

/-- What we authenticate ourselves with. -/
structure SessionAuth where
  uid : String
  publicHex : String
  signingKey : Bytes32
  deriving DecidableEq

/-- The authentication material of an identity. -/
def SessionAuth.ofIdentity (prim : Primitives) (uid : String) (signingKey : Bytes32) :
    SessionAuth :=
  ⟨uid, hexEncode (prim.verifyingKey signingKey).toList, signingKey⟩

/-- The keys of a session. -/
structure SessionKeys where
  sendKey : Bytes32
  recvKey : Bytes32
  peerUid : String
  peerPublicHex : String
  /-- The signature verified under a key we had on record. -/
  peerAuthenticated : Bool
  deriving DecidableEq

/-- The outcome of checking a peer's signature. -/
inductive PeerSigCheck where
  | verified
  | unverified
  | rejected
  deriving DecidableEq

section Handshake

variable (prim : Primitives)

/-- The Ed25519 key that a hexadecimal text stands for. -/
def parseIdentityKey (keyHex : String) : Option Bytes32 :=
  ((hexDecode keyHex).bind toBytes32).filter prim.isVerifyingKey

/-- Check a peer's signature against the key on record. A poisoned lock reads as an empty table. -/
def checkPeerSig (knownKeys : HashMap String String) (uid claimedKeyHex : String)
    (msg sig : Bytes) : PeerSigCheck :=
  match knownKeys.lookup uid with
  -- a stranger is let in, but not trusted
  | none => .unverified
  | some expected =>
    -- the texts are compared, so the same key in other digits is another key
    if expected ≠ claimedKeyHex then .rejected
    else
      match parseIdentityKey prim expected with
      | none => .unverified
      | some vk => if prim.verify vk msg sig then .verified else .rejected

/-- `hex_to_32`. -/
def hexTo32 (hex : String) : Except HandshakeError Bytes32 :=
  match hexDecode hex with
  | none => .error ⟨.invalidData, "bad hex"⟩
  | some bytes =>
    match toBytes32 bytes with
    | none => .error ⟨.invalidData, "bad key length"⟩
    | some key => .ok key

/-- The shared secret; a peer key that does not contribute to it is refused. -/
def deriveShared (secret peerEph : Bytes32) : Except HandshakeError Bytes32 :=
  let shared := prim.diffieHellman secret peerEph
  if prim.wasContributory shared then .ok shared
  else .error ⟨.invalidData, "peer ephemeral key is not contributory (low-order point)"⟩

/-- `crypto::derive_session_key`: both ends sort the ephemeral keys. -/
def deriveSessionKey (shared ephA ephB : Bytes32) : Bytes32 :=
  let (lo, hi) := sortPeers ephA ephB
  prim.hkdf (some (lo.toList ++ hi.toList)) shared.toList (asBytes "chrono-session-v1")

/-- `crypto::hkdf_expand32`. -/
def hkdfExpand32 (prk : Bytes32) (info : String) : Bytes32 :=
  prim.hkdf none prk.toList (asBytes info)

/-- The string a challenge is signed over. -/
def challengeText (eph : Bytes32) (nonce : Bytes) : Bytes := eph.toList ++ nonce

/-- The string a response is signed over. -/
def responseText (chalEph eph : Bytes32) (nonce : Bytes) : Bytes :=
  chalEph.toList ++ eph.toList ++ nonce

/-- The first message of the initiator. -/
def outboundChallenge (auth : SessionAuth) (ephSecret nonce : Bytes32) : PeerMessage :=
  let ephPub := prim.x25519Public ephSecret
  .authChallenge auth.uid auth.publicHex (hexEncode ephPub.toList) nonce.toList
    (prim.sign auth.signingKey (challengeText ephPub nonce.toList))

/-- The initiator, after its challenge: the response is checked and the keys are derived. -/
def outboundFinish (knownKeys : HashMap String String) (ephSecret nonce : Bytes32)
    (resp : PeerMessage) : Except HandshakeError SessionKeys :=
  match resp with
  | .authResponse respUid respKeyHex respEphHex respSig =>
    if validateUid respUid then
      match hexTo32 respEphHex with
      | .error e => .error e
      | .ok respEph =>
        let ephPub := prim.x25519Public ephSecret
        let check := checkPeerSig prim knownKeys respUid respKeyHex
          (responseText ephPub respEph nonce.toList) respSig
        if check = .rejected then
          .error ⟨.permissionDenied, s!"peer {respUid} failed handshake signature check"⟩
        else do
          let shared ← deriveShared prim ephSecret respEph
          let master := deriveSessionKey prim shared ephPub respEph
          return {
            sendKey := hkdfExpand32 prim master "chrono-dir-a"
            recvKey := hkdfExpand32 prim master "chrono-dir-b"
            peerUid := respUid
            peerPublicHex := respKeyHex
            peerAuthenticated := check = .verified }
    else .error ⟨.invalidData, "invalid responder uid"⟩
  | _ => .error ⟨.invalidData, "expected auth_response"⟩

/-- A challenge that has passed the responder's checks. -/
structure Challenge where
  uid : String
  keyHex : String
  eph : Bytes32
  nonce : Bytes
  /-- The signature verified under the key on record. -/
  authenticated : Bool
  deriving DecidableEq

/-- The responder's checks of a challenge. -/
def readChallenge (knownKeys : HashMap String String) (chal : PeerMessage) :
    Except HandshakeError Challenge :=
  match chal with
  | .authChallenge chalUid chalKeyHex chalEphHex chalNonce chalSig =>
    -- the length of the nonce is not looked at
    if validateUid chalUid then
      match hexTo32 chalEphHex with
      | .error e => .error e
      | .ok chalEph =>
        let check := checkPeerSig prim knownKeys chalUid chalKeyHex
          (challengeText chalEph chalNonce) chalSig
        if check = .rejected then
          .error ⟨.permissionDenied, s!"peer {chalUid} failed handshake signature check"⟩
        else .ok ⟨chalUid, chalKeyHex, chalEph, chalNonce, check = .verified⟩
    else .error ⟨.invalidData, "invalid challenger uid"⟩
  | _ => .error ⟨.invalidData, "expected auth_challenge"⟩

/-- The responder's answer to a challenge. -/
def inboundResponse (auth : SessionAuth) (ephSecret : Bytes32) (c : Challenge) : PeerMessage :=
  let ephPub := prim.x25519Public ephSecret
  .authResponse auth.uid auth.publicHex (hexEncode ephPub.toList)
    (prim.sign auth.signingKey (responseText c.eph ephPub c.nonce))

/-- The responder, after its response: the keys are derived. -/
def inboundFinish (ephSecret : Bytes32) (c : Challenge) : Except HandshakeError SessionKeys := do
  let ephPub := prim.x25519Public ephSecret
  let shared ← deriveShared prim ephSecret c.eph
  let master := deriveSessionKey prim shared c.eph ephPub
  return {
    sendKey := hkdfExpand32 prim master "chrono-dir-b"
    recvKey := hkdfExpand32 prim master "chrono-dir-a"
    peerUid := c.uid
    peerPublicHex := c.keyHex
    peerAuthenticated := c.authenticated }

/-- The responder's side of the handshake: the response it sends, if any, and its result. -/
def inboundHandshake (auth : SessionAuth) (knownKeys : HashMap String String) (ephSecret : Bytes32)
    (chal : PeerMessage) : Option PeerMessage × Except HandshakeError SessionKeys :=
  match readChallenge prim knownKeys chal with
  | .error e => (none, .error e)
  -- the response is sent before the challenger's key is tested for contributing
  | .ok c => (some (inboundResponse prim auth ephSecret c), inboundFinish prim ephSecret c)

end Handshake

variable {prim : Primitives} {knownKeys : HashMap String String}

/-- A signature is verified under the key on record, which is the claimed one. -/
theorem checkPeerSig_eq_verified {uid claimedKeyHex : String} {msg sig : Bytes} :
    checkPeerSig prim knownKeys uid claimedKeyHex msg sig = .verified ↔
      knownKeys.lookup uid = some claimedKeyHex ∧
        ∃ vk, parseIdentityKey prim claimedKeyHex = some vk ∧ prim.verify vk msg sig = true := by
  rw [checkPeerSig]
  cases knownKeys.lookup uid with
  | none => simp
  | some expected =>
    by_cases hkey : expected = claimedKeyHex
    · subst hkey
      cases hparse : parseIdentityKey prim expected with
      | none => simp [hparse]
      | some vk => by_cases hv : prim.verify vk msg sig = true <;> simp [hparse, hv]
    · simp [hkey]

/-- What a challenge has passed when it is accepted. -/
theorem readChallenge_eq_ok {chal : PeerMessage} {c : Challenge}
    (h : readChallenge prim knownKeys chal = .ok c) :
    ∃ ephHex sig, chal = .authChallenge c.uid c.keyHex ephHex c.nonce sig ∧
      hexTo32 ephHex = .ok c.eph ∧
      (c.authenticated = true →
        checkPeerSig prim knownKeys c.uid c.keyHex (challengeText c.eph c.nonce) sig =
          .verified) := by
  unfold readChallenge at h
  split at h
  next uid keyHex ephHex nonce sig =>
    split at h
    · split at h
      next e heph => cases h
      next eph heph =>
        dsimp only at h
        split at h
        · cases h
        -- accepted challenges include the unverified ones
        · obtain rfl := Except.ok.inj h
          exact ⟨ephHex, sig, rfl, heph, fun hverified => of_decide_eq_true hverified⟩
    · cases h
  next => cases h

/-- What an initiator has checked when it returns keys. -/
theorem outboundFinish_eq_ok {ephSecret nonce : Bytes32} {resp : PeerMessage} {keys : SessionKeys}
    (h : outboundFinish prim knownKeys ephSecret nonce resp = .ok keys) :
    ∃ ephHex sig respEph, resp = .authResponse keys.peerUid keys.peerPublicHex ephHex sig ∧
      hexTo32 ephHex = .ok respEph ∧
      (keys.peerAuthenticated = true → checkPeerSig prim knownKeys keys.peerUid keys.peerPublicHex
        (responseText (prim.x25519Public ephSecret) respEph nonce.toList) sig = .verified) ∧
      keys.sendKey = hkdfExpand32 prim (deriveSessionKey prim (prim.diffieHellman ephSecret respEph)
        (prim.x25519Public ephSecret) respEph) "chrono-dir-a" ∧
      keys.recvKey = hkdfExpand32 prim (deriveSessionKey prim (prim.diffieHellman ephSecret respEph)
        (prim.x25519Public ephSecret) respEph) "chrono-dir-b" := by
  unfold outboundFinish at h
  split at h
  next uid keyHex ephHex sig =>
    split at h
    · split at h
      next e heph => cases h
      next respEph heph =>
        dsimp only at h
        split at h
        · cases h
        · rw [deriveShared] at h
          split at h
          · obtain rfl := Except.ok.inj h
            exact ⟨ephHex, sig, respEph, rfl, heph, fun hverified => of_decide_eq_true hverified,
              rfl, rfl⟩
          · cases h
    · cases h
  next => cases h

/-- The session of a responder that has completed: its keys, and the challenger as the peer. -/
theorem inboundFinish_eq_ok {ephSecret : Bytes32} {c : Challenge} {keys : SessionKeys}
    (h : inboundFinish prim ephSecret c = .ok keys) :
    keys.sendKey = hkdfExpand32 prim (deriveSessionKey prim (prim.diffieHellman ephSecret c.eph)
        c.eph (prim.x25519Public ephSecret)) "chrono-dir-b" ∧
      keys.recvKey = hkdfExpand32 prim (deriveSessionKey prim (prim.diffieHellman ephSecret c.eph)
        c.eph (prim.x25519Public ephSecret)) "chrono-dir-a" ∧
      keys.peerUid = c.uid ∧ keys.peerAuthenticated = c.authenticated := by
  rw [inboundFinish, deriveShared] at h
  dsimp only at h
  split at h
  · obtain rfl := Except.ok.inj h
    exact ⟨rfl, rfl, rfl, rfl⟩
  · cases h

/-- A responder completes on a challenge that it has accepted. -/
theorem inboundHandshake_eq_ok {auth : SessionAuth} {ephSecret : Bytes32} {chal : PeerMessage}
    {keys : SessionKeys} (h : (inboundHandshake prim auth knownKeys ephSecret chal).2 = .ok keys) :
    ∃ c, readChallenge prim knownKeys chal = .ok c ∧ inboundFinish prim ephSecret c = .ok keys := by
  rw [inboundHandshake] at h
  split at h
  next => cases h
  next c hread => exact ⟨c, hread, h⟩

end ChronoShift
