import ChronoShift.Net.Session

/-!
# Handshakes of several nodes

The state of honest nodes that run any number of handshakes, and the network between them.
Signatures are symbolic (`Primitives.SymbolicSignatures`): a signature verifies on the text that it
was made for, under the key that made it.

A challenge is signed over `eph || nonce`, a response over `chal_eph || eph || nonce`, under the
same key and without a tag.

* `HandshakeWorld.step`: the steps of the nodes;
* `HandshakeWorld.Signed`: what an identity key has signed in handshakes;
* `HandshakeWorld.NetworkSigned.step`: every signature on the network is on record.
-/

namespace ChronoShift

/-- Signatures as symbols: a signature verifies under the key that made it, on the string it was
made for, and nothing else. -/
def Primitives.SymbolicSignatures (prim : Primitives) : Prop :=
  ∀ key key' msg msg', prim.verify (prim.verifyingKey key) msg (prim.sign key' msg') = true →
    prim.verifyingKey key = prim.verifyingKey key' ∧ msg = msg'

/-- The signature of a handshake message. -/
def PeerMessage.handshakeSignature : PeerMessage → Option Bytes
  | .authChallenge _ _ _ _ signature => some signature
  | .authResponse _ _ _ signature => some signature
  | _ => none

/-- A challenge that a node has sent. -/
structure SentChallenge where
  /-- The identity key of the sender. -/
  signer : Bytes32
  eph : Bytes32
  nonce : Bytes
  deriving DecidableEq

/-- A response that a node has sent. -/
structure SentResponse where
  /-- The identity key of the sender. -/
  signer : Bytes32
  chalEph : Bytes32
  eph : Bytes32
  nonce : Bytes
  deriving DecidableEq

/-- A session that a responder has accepted as authenticated. -/
structure AcceptedSession where
  /-- The key that was on record for the uid of the peer. -/
  recordedKey : Option String
  eph : Bytes32
  deriving DecidableEq

/-- An initiator that waits for its response. -/
structure OpenHandshake where
  signingKey : Bytes32
  ephSecret : Bytes32
  nonce : Bytes32
  deriving DecidableEq

/-- The honest nodes and the network. -/
structure HandshakeWorld where
  /-- What honest nodes have sent. -/
  network : List PeerMessage
  challenges : List SentChallenge
  responses : List SentResponse
  waiting : List OpenHandshake
  /-- The sessions of initiators. -/
  initiated : List SessionKeys
  accepted : List AcceptedSession

/-- A step of an honest node. Uids may change, so they are given at every step; nodes are known by
their signing keys. -/
inductive HandshakeEvent where
  /-- Send a challenge. -/
  | connect (signingKey : Bytes32) (uid : String) (ephSecret nonce : Bytes32)
  /-- Receive the response to a challenge. -/
  | finish (handshake : OpenHandshake) (knownKeys : HashMap String String) (resp : PeerMessage)
  /-- Receive a challenge and answer it. -/
  | accept (signingKey : Bytes32) (uid : String) (knownKeys : HashMap String String)
      (ephSecret : Bytes32) (chal : PeerMessage)

namespace HandshakeWorld

/-- Nothing has happened yet. -/
def init : HandshakeWorld := ⟨[], [], [], [], [], []⟩

/-- An authenticated session of a responder, on record. -/
def acceptedBy (knownKeys : HashMap String String) (c : Challenge) :
    Except HandshakeError SessionKeys → List AcceptedSession
  | .ok keys =>
    if keys.peerAuthenticated then [⟨knownKeys.lookup keys.peerUid, c.eph⟩] else []
  | .error _ => []

/-- Carry out a step. -/
def step (prim : Primitives) (w : HandshakeWorld) : HandshakeEvent → HandshakeWorld
  | .connect signingKey uid ephSecret nonce =>
    { w with
      network :=
        outboundChallenge prim (.ofIdentity prim uid signingKey) ephSecret nonce :: w.network
      challenges :=
        ⟨prim.verifyingKey signingKey, prim.x25519Public ephSecret, nonce.toList⟩ :: w.challenges
      waiting := ⟨signingKey, ephSecret, nonce⟩ :: w.waiting }
  | .finish handshake knownKeys resp =>
    { w with
      waiting := w.waiting.erase handshake
      initiated :=
        (match outboundFinish prim knownKeys handshake.ephSecret handshake.nonce resp with
          | .ok keys => [keys]
          | .error _ => []) ++ w.initiated }
  | .accept signingKey uid knownKeys ephSecret chal =>
    let auth := SessionAuth.ofIdentity prim uid signingKey
    match readChallenge prim knownKeys chal with
    | .error _ => w
    | .ok c =>
      let (sent, result) := inboundHandshake prim auth knownKeys ephSecret chal
      { w with
        network := sent.toList ++ w.network
        responses :=
          ⟨prim.verifyingKey signingKey, c.eph, prim.x25519Public ephSecret, c.nonce⟩ :: w.responses
        accepted := acceptedBy knownKeys c result ++ w.accepted }

/-- The identity key has signed the text, in a challenge or in a response. -/
def Signed (w : HandshakeWorld) (signer : Bytes32) (text : Bytes) : Prop :=
  (∃ c ∈ w.challenges, c.signer = signer ∧ text = challengeText c.eph c.nonce) ∨
    ∃ r ∈ w.responses, r.signer = signer ∧ text = responseText r.chalEph r.eph r.nonce

variable {prim : Primitives} {w w' : HandshakeWorld}

/-- What has been signed stays signed. -/
theorem Signed.mono {signer : Bytes32} {text : Bytes} (h : w.Signed signer text)
    (hchallenges : w.challenges ⊆ w'.challenges) (hresponses : w.responses ⊆ w'.responses) :
    w'.Signed signer text := by
  rcases h with ⟨c, hc, hsigned⟩ | ⟨r, hr, hsigned⟩
  · exact Or.inl ⟨c, hchallenges hc, hsigned⟩
  · exact Or.inr ⟨r, hresponses hr, hsigned⟩

/-- A session is on record as accepted when its challenge was authenticated. -/
theorem mem_acceptedBy {knownKeys : HashMap String String} {ephSecret : Bytes32} {c : Challenge}
    {a : AcceptedSession} (h : a ∈ acceptedBy knownKeys c (inboundFinish prim ephSecret c)) :
    c.authenticated = true ∧ a = ⟨knownKeys.lookup c.uid, c.eph⟩ := by
  cases hfinish : inboundFinish prim ephSecret c with
  | error e =>
    rw [hfinish] at h
    cases h
  | ok keys =>
    obtain ⟨-, -, huid, hauth⟩ := inboundFinish_eq_ok hfinish
    rw [hfinish, acceptedBy, huid, hauth] at h
    split at h
    next hverified => exact ⟨hverified, List.mem_singleton.mp h⟩
    next => cases h

/-- Every signature on the network is on record. -/
def NetworkSigned (prim : Primitives) (w : HandshakeWorld) : Prop :=
  ∀ m ∈ w.network, ∀ sig, m.handshakeSignature = some sig →
    ∃ key text, sig = prim.sign key text ∧ w.Signed (prim.verifyingKey key) text

/-- Whatever is sent is put on record. -/
theorem NetworkSigned.step (h : w.NetworkSigned prim) (event : HandshakeEvent) :
    (w.step prim event).NetworkSigned prim := by
  cases event with
  | connect signingKey uid ephSecret nonce =>
    intro m hm sig hsig
    rcases List.mem_cons.mp hm with rfl | hm
    · obtain rfl := Option.some.inj hsig
      exact ⟨signingKey, _, rfl, Or.inl ⟨_, List.mem_cons_self, rfl, rfl⟩⟩
    · obtain ⟨key, text, hsign, hsigned⟩ := h m hm sig hsig
      exact ⟨key, text, hsign, hsigned.mono (List.subset_cons_self _ _) (List.Subset.refl _)⟩
  | finish handshake knownKeys resp => exact h
  | accept signingKey uid knownKeys ephSecret chal =>
    rw [HandshakeWorld.step, inboundHandshake]
    cases hread : readChallenge prim knownKeys chal with
    | error e => exact h
    | ok c =>
      intro m hm sig hsig
      rcases List.mem_cons.mp hm with rfl | hm
      · obtain rfl := Option.some.inj hsig
        exact ⟨signingKey, _, rfl, Or.inr ⟨_, List.mem_cons_self, rfl, rfl⟩⟩
      · obtain ⟨key, text, hsign, hsigned⟩ := h m hm sig hsig
        exact ⟨key, text, hsign, hsigned.mono (List.Subset.refl _) (List.subset_cons_self _ _)⟩

/-- Signatures that consist of the key and the message. -/
def symbolicPrimitives : Primitives where
  __ := Primitives.const
  sign key msg := key.toList ++ msg
  verify vk msg sig := sig = vk.toList ++ msg

theorem symbolicSignatures_symbolicPrimitives : symbolicPrimitives.SymbolicSignatures := by
  intro key key' msg msg' hverify
  have heq : key'.toList ++ msg' = key.toList ++ msg := of_decide_eq_true hverify
  obtain ⟨hkey, hmsg⟩ := List.append_inj heq (by simp)
  exact ⟨(Vector.toList_inj.mp hkey).symm, hmsg.symm⟩

/-- The signing key of `alice`. -/
def aliceKey : Bytes32 := .replicate 32 1

/-- The signing key of `bob`. -/
def bobKey : Bytes32 := .replicate 32 2

/-- The challenge of `bob`. -/
def bobChallenge : PeerMessage :=
  outboundChallenge symbolicPrimitives (.ofIdentity symbolicPrimitives "bob" bobKey)
    (.replicate 32 5) (.replicate 32 6)

end HandshakeWorld

end ChronoShift
