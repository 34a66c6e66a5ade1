import ChronoShift.DcNet.RoundNetwork
import ChronoShift.Net.Handshake
import ChronoShift.Net.Relay
import ChronoShift.Pgp.WebOfTrust

/-!
# Authentication of the responder, and the keys of a session

The identity key of a node signs challenges and responses, and three kinds of application messages:
shares, relayed messages and trust signatures. Those start with a text of their own, of which
`chrono-` is the common beginning. A response to a challenge with an ephemeral key that does not
begin so is signed by nothing but a response: it is 32 bytes longer than a challenge of an honest
node, and it begins with the ephemeral key.

* `ApplicationText.isPrefix_bytes`: how application messages begin;
* `SessionWorld.Signed.response`: what signs a response is the same response;
* `SessionWorld.authenticated_agreed`: an initiator that has authenticated an honest responder
  agrees with it on the challenge, on both ephemeral keys and on the keys of the session.
-/

namespace ChronoShift

/-- What an identity key signs outside of handshakes. -/
inductive ApplicationText where
  | share (channel : String) (roundId : ℕ) (xored : Bytes)
  | relay (fromUid toUid : String) (nonce timestamp : ℕ) (payload : Bytes)
  | trust (subjectFp : String) (trustLevel : UInt8) (timestamp : ℕ)

/-- The signed bytes. -/
def ApplicationText.bytes : ApplicationText → Bytes
  | .share channel roundId xored => shareSignatureMessage channel roundId xored
  | .relay fromUid toUid nonce timestamp payload =>
    relaySignatureMessage fromUid toUid nonce timestamp payload
  | .trust subjectFp trustLevel timestamp => signatureMessage subjectFp trustLevel timestamp

/-- The signature of an application message. -/
def ApplicationText.sign (prim : Primitives) (signingKey : Bytes32) : ApplicationText → Bytes
  | .share channel roundId xored => signShare prim signingKey channel roundId xored
  | .relay fromUid toUid nonce timestamp payload =>
    signRelay prim signingKey fromUid toUid nonce timestamp payload
  | .trust subjectFp trustLevel timestamp =>
    -- the fingerprint of the signer is not signed
    (TrustSignature.create prim signingKey "" subjectFp trustLevel timestamp).signatureData

theorem ApplicationText.sign_eq (prim : Primitives) (signingKey : Bytes32)
    (text : ApplicationText) : text.sign prim signingKey = prim.sign signingKey text.bytes := by
  cases text <;> rfl

/-- All application messages begin with the same seven bytes. -/
theorem ApplicationText.isPrefix_bytes (text : ApplicationText) :
    asBytes "chrono-" <+: text.bytes := by
  have hdomain (domain : String) (rest : Bytes) (h : asBytes "chrono-" <+: asBytes domain) :
      asBytes "chrono-" <+: asBytes domain ++ rest :=
    h.trans (List.prefix_append _ _)
  cases text with
  | share channel roundId xored =>
    simp only [bytes, shareSignatureMessage, shareSigDomain, List.append_assoc]
    exact hdomain "chrono-dcnet-share-v1" _ (by decide)
  | relay fromUid toUid nonce timestamp payload =>
    simp only [bytes, relaySignatureMessage, relaySigDomain, List.append_assoc]
    exact hdomain "chrono-relay-v1" _ (by decide)
  | trust subjectFp trustLevel timestamp =>
    simp only [bytes, signatureMessage, List.append_assoc]
    exact hdomain "chrono-wot-sign-v1" _ (by decide)

/-- The ephemeral key of a response. -/
def PeerMessage.responseEph : PeerMessage → Option Bytes32
  | .authResponse _ _ ephPubHex _ => (hexTo32 ephPubHex).toOption
  | _ => none

/-- A run of `inbound_handshake` that has answered a challenge. -/
structure InboundRun where
  signingKey : Bytes32
  ephSecret : Bytes32
  challenge : Challenge
  result : Except HandshakeError SessionKeys

/-- A run of `outbound_handshake` that has returned keys. -/
structure OutboundRun where
  handshake : OpenHandshake
  /-- The key that was on record for the uid of the peer. -/
  recordedKey : Option String
  /-- The ephemeral key of the response. -/
  respEph : Option Bytes32
  keys : SessionKeys

/-- The handshakes of the honest nodes, with the outcome of both sides, and the application messages
they have signed. -/
structure SessionWorld where
  handshakes : HandshakeWorld
  inbound : List InboundRun
  outbound : List OutboundRun
  /-- Application messages, with the key that has signed them. -/
  applications : List (Bytes32 × ApplicationText)

/-- A step of an honest node. -/
inductive SessionEvent where
  | handshake (event : HandshakeEvent)
  /-- Sign and send an application message. -/
  | sign (signingKey : Bytes32) (text : ApplicationText)

/-- The run of a responder. -/
def HandshakeEvent.inboundRuns (prim : Primitives) : HandshakeEvent → List InboundRun
  | .accept signingKey uid knownKeys ephSecret chal =>
    match readChallenge prim knownKeys chal with
    | .error _ => []
    | .ok c => [⟨signingKey, ephSecret, c, (inboundHandshake prim
        (.ofIdentity prim uid signingKey) knownKeys ephSecret chal).2⟩]
  | _ => []

/-- The run of an initiator. -/
def HandshakeEvent.outboundRuns (prim : Primitives) : HandshakeEvent → List OutboundRun
  | .finish handshake knownKeys resp =>
    match outboundFinish prim knownKeys handshake.ephSecret handshake.nonce resp with
    | .error _ => []
    | .ok keys => [⟨handshake, knownKeys.lookup keys.peerUid, resp.responseEph, keys⟩]
  | _ => []

namespace SessionWorld

/-- Nothing has happened yet. -/
def init : SessionWorld := ⟨.init, [], [], []⟩

/-- Carry out a step. -/
def step (prim : Primitives) (w : SessionWorld) : SessionEvent → SessionWorld
  | .handshake event =>
    { w with
      handshakes := w.handshakes.step prim event
      inbound := event.inboundRuns prim ++ w.inbound
      outbound := event.outboundRuns prim ++ w.outbound }
  | .sign signingKey text => { w with applications := (signingKey, text) :: w.applications }

/-- The adversary can deliver the message: its signature has been seen, in a handshake or on an
application message, or no honest key verifies it. -/
def Deliverable (prim : Primitives) (honest : List Bytes32) (w : SessionWorld)
    (msg : PeerMessage) : Prop :=
  ∀ sig, msg.handshakeSignature = some sig →
    (∃ m ∈ w.handshakes.network, m.handshakeSignature = some sig) ∨
      (∃ p ∈ w.applications, sig = p.2.sign prim p.1) ∨
      ∀ key ∈ honest, ∀ text, prim.verify (prim.verifyingKey key) text sig = false

/-- The ephemeral public key does not begin like an application message. -/
def PlainEph (prim : Primitives) (ephSecret : Bytes32) : Prop :=
  ¬ asBytes "chrono-" <+: (prim.x25519Public ephSecret).toList

instance (prim : Primitives) : DecidablePred (PlainEph prim) := fun _ => instDecidableNot

/-- Honest nodes take steps, and the adversary delivers the messages. -/
def Permitted (prim : Primitives) (honest : List Bytes32) (w : SessionWorld) :
    SessionEvent → Prop
  | .handshake (.connect signingKey _ _ _) => signingKey ∈ honest
  | .handshake (.finish handshake _ resp) =>
    handshake ∈ w.handshakes.waiting ∧ w.Deliverable prim honest resp
  | .handshake (.accept signingKey _ _ _ chal) =>
    signingKey ∈ honest ∧ w.Deliverable prim honest chal
  | .sign signingKey _ => signingKey ∈ honest

/-- The step is permitted, and the ephemeral key that it generates does not begin like an
application message. -/
def Allowed (prim : Primitives) (honest : List Bytes32) (w : SessionWorld) (event : SessionEvent) :
    Prop :=
  w.Permitted prim honest event ∧
    match event with
    | .handshake (.connect _ _ ephSecret _) => PlainEph prim ephSecret
    | .handshake (.accept _ _ _ ephSecret _) => PlainEph prim ephSecret
    | _ => True

/-- The runs of the honest nodes. -/
inductive Reachable (prim : Primitives) (honest : List Bytes32) : SessionWorld → Prop
  | init : Reachable prim honest init
  | step {w : SessionWorld} (event : SessionEvent) : Reachable prim honest w →
      w.Allowed prim honest event → Reachable prim honest (w.step prim event)

/-- The responder's run that belongs to the initiator's run `o`: on a challenge with its ephemeral
key and its nonce, with the ephemeral key that it has accepted, and with the same keys. -/
structure Agrees (prim : Primitives) (o : OutboundRun) (i : InboundRun) : Prop where
  eph : i.challenge.eph = prim.x25519Public o.handshake.ephSecret
  nonce : i.challenge.nonce = o.handshake.nonce.toList
  respEph : o.respEph = some (prim.x25519Public i.ephSecret)
  keys : ∀ keys, i.result = .ok keys →
    o.keys.sendKey = keys.recvKey ∧ o.keys.recvKey = keys.sendKey

/-- Every initiator that has authenticated the owner of an honest key agrees with a run of this
owner. -/
def Agreed (prim : Primitives) (honest : List Bytes32) (w : SessionWorld) : Prop :=
  ∀ o ∈ w.outbound, o.keys.peerAuthenticated = true → ∀ key ∈ honest,
    o.recordedKey.bind (parseIdentityKey prim) = some (prim.verifyingKey key) →
      ∃ i ∈ w.inbound, prim.verifyingKey i.signingKey = prim.verifyingKey key ∧ Agrees prim o i

/-- The identity key has signed the text. -/
def Signed (prim : Primitives) (w : SessionWorld) (signer : Bytes32) (text : Bytes) : Prop :=
  w.handshakes.Signed signer text ∨
    ∃ p ∈ w.applications, prim.verifyingKey p.1 = signer ∧ text = p.2.bytes

/-- The run of a responder that has sent the response. -/
structure Answers (prim : Primitives) (r : SentResponse) (i : InboundRun) : Prop where
  signer : prim.verifyingKey i.signingKey = r.signer
  chalEph : i.challenge.eph = r.chalEph
  eph : prim.x25519Public i.ephSecret = r.eph
  nonce : i.challenge.nonce = r.nonce
  result : i.result = inboundFinish prim i.ephSecret i.challenge

/-- The invariant of runs. -/
structure Inv (prim : Primitives) (honest : List Bytes32) (w : SessionWorld) : Prop where
  network : w.handshakes.NetworkSigned prim
  /-- Honest nodes send nonces of 32 bytes. -/
  challenges : ∀ c ∈ w.handshakes.challenges, c.nonce.length = 32
  waiting : ∀ h ∈ w.handshakes.waiting, PlainEph prim h.ephSecret
  responses : ∀ r ∈ w.handshakes.responses, ∃ i ∈ w.inbound, Answers prim r i
  agreed : w.Agreed prim honest

variable {prim : Primitives} {honest : List Bytes32} {w : SessionWorld}

/-- What an honest key has signed, and what reads as a response to an honest challenge, is that
response. -/
theorem Signed.response {signer ephSecret respEph nonce : Bytes32}
    (h : w.Signed prim signer
      (responseText (prim.x25519Public ephSecret) respEph nonce.toList))
    (hchallenges : ∀ c ∈ w.handshakes.challenges, c.nonce.length = 32)
    (hplain : PlainEph prim ephSecret) :
    ∃ r ∈ w.handshakes.responses, r.signer = signer ∧ r.chalEph = prim.x25519Public ephSecret ∧
      r.eph = respEph ∧ r.nonce = nonce.toList := by
  rcases h with (⟨c, hc, -, htext⟩ | ⟨r, hr, hsigner, htext⟩) | ⟨p, -, -, htext⟩
  -- a challenge has 64 bytes, the response has 96
  · have hlen := congrArg List.length htext
    simp [responseText, challengeText, hchallenges c hc] at hlen
  · obtain ⟨hkeys, hnonce⟩ := List.append_inj htext (by simp)
    obtain ⟨hchal, heph⟩ := List.append_inj hkeys (by simp)
    exact ⟨r, hr, hsigner, (Vector.toList_inj.mp hchal).symm, (Vector.toList_inj.mp heph).symm,
      hnonce.symm⟩
  -- an application message begins with seven bytes that the ephemeral key does not begin with
  · refine absurd ?_ hplain
    have hprefix := p.2.isPrefix_bytes
    rw [← htext, responseText, List.append_assoc] at hprefix
    refine List.prefix_of_prefix_length_le hprefix (List.prefix_append _ _) ?_
    rw [Vector.length_toList]
    decide

/-- What honest keys verify has been signed by them. -/
theorem exists_signed (hnetwork : w.handshakes.NetworkSigned prim) (hsym : prim.SymbolicSignatures)
    {msg : PeerMessage} {sig text : Bytes} {key : Bytes32} (hmsg : w.Deliverable prim honest msg)
    (hsig : msg.handshakeSignature = some sig) (hkey : key ∈ honest)
    (hverify : prim.verify (prim.verifyingKey key) text sig = true) :
    w.Signed prim (prim.verifyingKey key) text ∧
      ∃ key', prim.verifyingKey key' = prim.verifyingKey key ∧ sig = prim.sign key' text := by
  rcases hmsg sig hsig with ⟨m, hm, hseen⟩ | ⟨p, hp, rfl⟩ | hforeign
  · obtain ⟨key', text', rfl, hsigned⟩ := hnetwork m hm sig hseen
    obtain ⟨hkeys, rfl⟩ := hsym key key' text text' hverify
    rw [hkeys]
    exact ⟨Or.inl hsigned, key', rfl, rfl⟩
  · rw [ApplicationText.sign_eq] at hverify ⊢
    obtain ⟨hkeys, rfl⟩ := hsym key p.1 text p.2.bytes hverify
    exact ⟨Or.inr ⟨p, hp, hkeys.symm, rfl⟩, p.1, hkeys.symm, rfl⟩
  · rw [hforeign key hkey text] at hverify
    cases hverify

/-- Signatures on the network stay on record. -/
theorem networkSigned_step (hnetwork : w.handshakes.NetworkSigned prim) (event : SessionEvent) :
    (w.step prim event).handshakes.NetworkSigned prim := by
  cases event with
  | handshake event => exact hnetwork.step event
  | sign signingKey text => exact hnetwork

/-- Both sides derive the keys of the session from the same secret. -/
theorem keys_agree
    (hdh : ∀ a b, prim.diffieHellman a (prim.x25519Public b) =
      prim.diffieHellman b (prim.x25519Public a))
    {o : OutboundRun} {i : InboundRun} {keys : SessionKeys}
    (heph : i.challenge.eph = prim.x25519Public o.handshake.ephSecret)
    (hsend : o.keys.sendKey = hkdfExpand32 prim (deriveSessionKey prim
      (prim.diffieHellman o.handshake.ephSecret (prim.x25519Public i.ephSecret))
      (prim.x25519Public o.handshake.ephSecret) (prim.x25519Public i.ephSecret)) "chrono-dir-a")
    (hrecv : o.keys.recvKey = hkdfExpand32 prim (deriveSessionKey prim
      (prim.diffieHellman o.handshake.ephSecret (prim.x25519Public i.ephSecret))
      (prim.x25519Public o.handshake.ephSecret) (prim.x25519Public i.ephSecret)) "chrono-dir-b")
    (hkeys : inboundFinish prim i.ephSecret i.challenge = .ok keys) :
    o.keys.sendKey = keys.recvKey ∧ o.keys.recvKey = keys.sendKey := by
  obtain ⟨hsend', hrecv', -, -⟩ := inboundFinish_eq_ok hkeys
  rw [heph, ← hdh] at hsend' hrecv'
  exact ⟨hsend.trans hrecv'.symm, hrecv.trans hsend'.symm⟩

/-- An initiator that authenticates an honest responder agrees with a run of it. -/
theorem Inv.finish (h : Inv prim honest w) (hsym : prim.SymbolicSignatures)
    (hdh : ∀ a b, prim.diffieHellman a (prim.x25519Public b) =
      prim.diffieHellman b (prim.x25519Public a))
    {handshake : OpenHandshake} {knownKeys : HashMap String String} {resp : PeerMessage}
    (hwaiting : handshake ∈ w.handshakes.waiting) (hresp : w.Deliverable prim honest resp) :
    ∀ o ∈ (HandshakeEvent.finish handshake knownKeys resp).outboundRuns prim,
      o.keys.peerAuthenticated = true → ∀ key ∈ honest,
        o.recordedKey.bind (parseIdentityKey prim) = some (prim.verifyingKey key) →
          ∃ i ∈ w.inbound, prim.verifyingKey i.signingKey = prim.verifyingKey key ∧
            Agrees prim o i := by
  intro o ho hauth key hkey hrecorded
  rw [HandshakeEvent.outboundRuns] at ho
  split at ho
  · cases ho
  next keys hfinish =>
    obtain rfl := List.mem_singleton.mp ho
    obtain ⟨ephHex, sig, respEph, rfl, heph, hcheck, hsend, hrecv⟩ := outboundFinish_eq_ok hfinish
    obtain ⟨hlookup, vk, hparse, hverify⟩ := checkPeerSig_eq_verified.mp (hcheck hauth)
    -- the signature was verified under the recorded key, which is that of the honest node
    have hvk : vk = prim.verifyingKey key := by
      have hrecorded' : (knownKeys.lookup keys.peerUid).bind (parseIdentityKey prim) =
        some (prim.verifyingKey key) := hrecorded
      rw [hlookup, Option.bind_some, hparse] at hrecorded'
      exact Option.some.inj hrecorded'
    rw [hvk] at hverify
    obtain ⟨r, hr, hsigner, hchalEph, hrespEph, hnonce⟩ :=
      (exists_signed h.network hsym hresp rfl hkey hverify).1.response h.challenges
        (h.waiting _ hwaiting)
    obtain ⟨i, hi, hanswers⟩ := h.responses r hr
    have hieph : prim.x25519Public i.ephSecret = respEph := hanswers.eph.trans hrespEph
    have hchal : i.challenge.eph = prim.x25519Public handshake.ephSecret :=
      hanswers.chalEph.trans hchalEph
    refine ⟨i, hi, hanswers.signer.trans hsigner, hchal, hanswers.nonce.trans hnonce, ?_,
      fun keysB hresult => ?_⟩
    · show (hexTo32 ephHex).toOption = _
      rw [heph, hieph]
      rfl
    · rw [hanswers.result] at hresult
      rw [← hieph] at hsend hrecv
      exact keys_agree (o := ⟨handshake, _, _, keys⟩) hdh hchal hsend hrecv hresult

theorem inv_init : Inv prim honest init :=
  ⟨fun _ hm => absurd hm List.not_mem_nil, fun _ hc => absurd hc List.not_mem_nil,
    fun _ hh => absurd hh List.not_mem_nil, fun _ hr => absurd hr List.not_mem_nil,
    fun _ ho => absurd ho List.not_mem_nil⟩

/-- A responder that answers is on record with the response that it sends. -/
theorem Inv.accept (h : Inv prim honest w) {signingKey ephSecret : Bytes32} {uid : String}
    {knownKeys : HashMap String String} {chal : PeerMessage} :
    Inv prim honest
      (w.step prim (.handshake (.accept signingKey uid knownKeys ephSecret chal))) := by
  have hmono : w.inbound ⊆
      (w.step prim (.handshake (.accept signingKey uid knownKeys ephSecret chal))).inbound :=
    List.subset_append_right _ _
  refine ⟨networkSigned_step h.network _, ?_, ?_, fun r hr => ?_,
    fun o ho hauth key hkey hrecorded => ?_⟩
  · rw [SessionWorld.step, HandshakeWorld.step]
    cases readChallenge prim knownKeys chal <;> exact h.challenges
  · rw [SessionWorld.step, HandshakeWorld.step]
    cases readChallenge prim knownKeys chal <;> exact h.waiting
  · have hold (hr : r ∈ w.handshakes.responses) : ∃ i ∈ (w.step prim (.handshake
        (.accept signingKey uid knownKeys ephSecret chal))).inbound, Answers prim r i := by
      obtain ⟨i, hi, hanswers⟩ := h.responses r hr
      exact ⟨i, hmono hi, hanswers⟩
    rw [SessionWorld.step, HandshakeWorld.step] at hr
    cases hread : readChallenge prim knownKeys chal with
    | error e =>
      rw [hread] at hr
      exact hold hr
    | ok c =>
      rw [hread] at hr
      rcases List.mem_cons.mp hr with rfl | hr
      -- the new response is that of the new run
      · refine ⟨⟨signingKey, ephSecret, c, inboundFinish prim ephSecret c⟩, ?_,
          rfl, rfl, rfl, rfl, rfl⟩
        refine List.mem_append_left _ ?_
        rw [HandshakeEvent.inboundRuns, inboundHandshake, hread]
        exact List.mem_singleton_self _
      · exact hold hr
  · obtain ⟨i, hi, hagrees⟩ := h.agreed o ho hauth key hkey hrecorded
    exact ⟨i, hmono hi, hagrees⟩

theorem Inv.step (h : Inv prim honest w) (hsym : prim.SymbolicSignatures)
    (hdh : ∀ a b, prim.diffieHellman a (prim.x25519Public b) =
      prim.diffieHellman b (prim.x25519Public a))
    {event : SessionEvent} (hallowed : w.Allowed prim honest event) :
    Inv prim honest (w.step prim event) := by
  have hnetwork := networkSigned_step h.network event
  cases event with
  | sign signingKey text =>
    exact ⟨hnetwork, h.challenges, h.waiting, h.responses, h.agreed⟩
  | handshake event =>
    cases event with
    | connect signingKey uid ephSecret nonce =>
      refine ⟨hnetwork, fun c hc => ?_, fun hs hhs => ?_, h.responses, h.agreed⟩
      · rcases List.mem_cons.mp hc with rfl | hc
        · exact Vector.length_toList
        · exact h.challenges c hc
      · rcases List.mem_cons.mp hhs with rfl | hhs
        · exact hallowed.2
        · exact h.waiting hs hhs
    | finish handshake knownKeys resp =>
      refine ⟨hnetwork, h.challenges, fun hs hhs => h.waiting hs (List.mem_of_mem_erase hhs),
        h.responses, fun o ho hauth key hkey hrecorded => ?_⟩
      rcases List.mem_append.mp ho with hnew | hold
      · exact h.finish hsym hdh hallowed.1.1 hallowed.1.2 o hnew hauth key hkey hrecorded
      · exact h.agreed o hold hauth key hkey hrecorded
    | accept signingKey uid knownKeys ephSecret chal => exact h.accept

/-- Authentication of the responder and agreement on the keys. In every run, whenever
`outbound_handshake` of an honest node has returned an authenticated session, for a uid whose
recorded key is that of an honest node, this node has run `inbound_handshake` on a challenge with
exactly the initiator's ephemeral key and nonce, has generated the ephemeral key that the initiator
has accepted, and, if it has completed, has the same keys with the directions swapped. -/
theorem authenticated_agreed (prim : Primitives) (honest : List Bytes32)
    (hsym : prim.SymbolicSignatures)
    (hdh : ∀ a b, prim.diffieHellman a (prim.x25519Public b) =
      prim.diffieHellman b (prim.x25519Public a))
    (w : SessionWorld) (hreach : w.Reachable prim honest) : w.Agreed prim honest := by
  have hinv : Inv prim honest w := by
    induction hreach with
    | init => exact inv_init
    | step event _ hallowed ih => exact ih.step hsym hdh hallowed
  exact hinv.agreed

open HandshakeWorld (symbolicPrimitives symbolicSignatures_symbolicPrimitives aliceKey bobKey)

/-- `alice` connects to `bob`. -/
def aliceConnects : SessionEvent :=
  .handshake (.connect aliceKey "alice" (.replicate 32 5) (.replicate 32 6))

/-- `bob` answers the challenge of `alice`. -/
def bobAnswers : SessionEvent :=
  .handshake (.accept bobKey "bob" (ToMathlib.HashMap.ofPairs
    [("alice", hexEncode aliceKey.toList)]) (.replicate 32 7) (outboundChallenge symbolicPrimitives
      (.ofIdentity symbolicPrimitives "alice" aliceKey) (.replicate 32 5) (.replicate 32 6)))

/-- The answer of `bob`. -/
def bobResponse : PeerMessage :=
  inboundResponse symbolicPrimitives (.ofIdentity symbolicPrimitives "bob" bobKey) (.replicate 32 7)
    ⟨"alice", hexEncode aliceKey.toList, .replicate 32 5, (Vector.replicate 32 6).toList, true⟩

/-- `alice` finishes, with the key of `bob` on record. -/
def aliceFinishes : SessionEvent :=
  .handshake (.finish ⟨aliceKey, .replicate 32 5, .replicate 32 6⟩
    (ToMathlib.HashMap.ofPairs [("bob", hexEncode bobKey.toList)]) bobResponse)

/-- A whole handshake between `alice` and `bob`. -/
def aliceMeetsBob : SessionWorld :=
  [aliceConnects, bobAnswers, aliceFinishes].foldl (step symbolicPrimitives) init

/-- `alice` has authenticated `bob`, and agrees with him. -/
theorem authenticated_agreed_bob :
    (aliceMeetsBob.outbound.map (·.keys.peerAuthenticated)) = [true] ∧
      aliceMeetsBob.Agreed symbolicPrimitives [aliceKey, bobKey] := by
  refine ⟨by decide +kernel, authenticated_agreed symbolicPrimitives [aliceKey, bobKey]
    symbolicSignatures_symbolicPrimitives (fun _ _ => rfl) _ ?_⟩
  refine .step aliceFinishes (.step bobAnswers (.step aliceConnects .init ⟨List.mem_cons_self, ?_⟩)
    ⟨⟨by decide, ?_⟩, ?_⟩) ⟨⟨by decide +kernel, ?_⟩, trivial⟩
  · show PlainEph _ _
    decide +kernel
  · intro sig hsig
    exact Or.inl ⟨_, List.mem_cons_self, hsig⟩
  · show PlainEph _ _
    decide +kernel
  · intro sig hsig
    have hsent : bobResponse.handshakeSignature ∈ ([aliceConnects, bobAnswers].foldl
        (step symbolicPrimitives) init).handshakes.network.map PeerMessage.handshakeSignature := by
      decide +kernel
    obtain ⟨m, hm, hseen⟩ := List.mem_map.mp hsent
    exact Or.inl ⟨m, hm, hseen.trans hsig⟩

end SessionWorld

end ChronoShift
