import ChronoShift.Net.KeyAgreement

/-!
# Authentication of the initiator

A responder verifies the signature of a challenge over `eph || nonce`. The identity key that it
verifies under signs other texts as well, and the nonce of a challenge may have any length. A
response is signed over `chal_eph || eph || nonce`, and reads as a challenge with the ephemeral key
`chal_eph` and the nonce `eph || nonce`. A share, a relayed message or a trust signature reads as a
challenge whose ephemeral key is made of its first 32 bytes.

* `SessionWorld.Signed.challenge`: what reads as a challenge is one, or a text of another kind;
* `SessionWorld.accepted_generated`: an accepted ephemeral key was generated by the owner of the
  recorded key, in every run in which no text of another kind is delivered as a challenge;
* `SessionWorld.ReachableUnder.notReframed`: two checks of the challenge are enough for that.
-/

namespace ChronoShift

namespace SessionWorld

/-- The runs of the honest nodes in which every step meets `ok`. -/
inductive ReachableUnder (prim : Primitives) (honest : List Bytes32)
    (ok : SessionWorld → SessionEvent → Prop) : SessionWorld → Prop
  | init : ReachableUnder prim honest ok init
  | step {w : SessionWorld} (event : SessionEvent) : ReachableUnder prim honest ok w →
      w.Permitted prim honest event → ok w event → ReachableUnder prim honest ok (w.step prim event)

/-- The ephemeral key of every accepted session whose recorded key is an honest one was generated by
the owner of that key, for a challenge of its own. -/
def AcceptedGenerated (prim : Primitives) (honest : List Bytes32) (w : SessionWorld) : Prop :=
  ∀ a ∈ w.handshakes.accepted, ∀ key ∈ honest,
    a.recordedKey.bind (parseIdentityKey prim) = some (prim.verifyingKey key) →
      ∃ c ∈ w.handshakes.challenges, c.signer = prim.verifyingKey key ∧ c.eph = a.eph

/-- The identity key has signed the text, as a response or as an application message. -/
def SignedOtherwise (prim : Primitives) (w : SessionWorld) (signer : Bytes32) (text : Bytes) :
    Prop :=
  (∃ r ∈ w.handshakes.responses, r.signer = signer ∧
      text = responseText r.chalEph r.eph r.nonce) ∨
    ∃ p ∈ w.applications, prim.verifyingKey p.1 = signer ∧ text = p.2.bytes

/-- The step does not receive a challenge that verifies under the key on record, and whose text the
owner of this key has signed as a response or as an application message. -/
def NotReframed (prim : Primitives) (w : SessionWorld) : SessionEvent → Prop
  | .handshake (.accept _ _ knownKeys _ (.authChallenge uid _ ephHex nonce signature)) =>
    ∀ eph signer, hexTo32 ephHex = .ok eph →
      (knownKeys.lookup uid).bind (parseIdentityKey prim) = some signer →
      prim.verify signer (challengeText eph nonce) signature = true →
        ¬ w.SignedOtherwise prim signer (challengeText eph nonce)
  | _ => True

/-- The invariant of runs. -/
structure ChallengeInv (prim : Primitives) (honest : List Bytes32) (w : SessionWorld) : Prop where
  /-- A signature that has been sent in a handshake is on record. -/
  network : w.handshakes.NetworkSigned prim
  generated : w.AcceptedGenerated prim honest

variable {prim : Primitives} {honest : List Bytes32} {w : SessionWorld}

/-- Nothing has been sent or accepted at first. -/
theorem challengeInv_init : ChallengeInv prim honest init :=
  ⟨fun _ hm => absurd hm List.not_mem_nil, fun _ ha => absurd ha List.not_mem_nil⟩

/-- A signed text that is read as a challenge is a challenge of its signer with this ephemeral key,
or it was signed as something else. -/
theorem Signed.challenge {signer eph : Bytes32} {nonce : Bytes}
    (h : w.Signed prim signer (challengeText eph nonce)) :
    (∃ c ∈ w.handshakes.challenges, c.signer = signer ∧ c.eph = eph) ∨
      w.SignedOtherwise prim signer (challengeText eph nonce) := by
  rcases h with (⟨c, hc, hsigner, htext⟩ | hresponse) | happlication
  -- both texts start with a key of 32 bytes
  · obtain ⟨heph, -⟩ := List.append_inj htext (by simp)
    exact Or.inl ⟨c, hc, hsigner, (Vector.toList_inj.mp heph).symm⟩
  · exact Or.inr (Or.inl hresponse)
  · exact Or.inr (Or.inr happlication)

/-- An accepted challenge under an honest key on record has a key that its owner generated. -/
theorem ChallengeInv.accepted (h : ChallengeInv prim honest w) (hsym : prim.SymbolicSignatures)
    {signingKey ephSecret : Bytes32} {uid : String} {knownKeys : HashMap String String}
    {chal : PeerMessage} {c : Challenge} (hread : readChallenge prim knownKeys chal = .ok c)
    (hchal : w.Deliverable prim honest chal)
    (hok : w.NotReframed prim (.handshake (.accept signingKey uid knownKeys ephSecret chal))) :
    ∀ a ∈ HandshakeWorld.acceptedBy knownKeys c (inboundFinish prim ephSecret c), ∀ key ∈ honest,
      a.recordedKey.bind (parseIdentityKey prim) = some (prim.verifyingKey key) →
        ∃ c' ∈ w.handshakes.challenges, c'.signer = prim.verifyingKey key ∧ c'.eph = a.eph := by
  intro a ha key hkey hrecorded
  obtain ⟨ephHex, sig, rfl, heph, hcheck⟩ := readChallenge_eq_ok hread
  obtain ⟨hauth, rfl⟩ := HandshakeWorld.mem_acceptedBy ha
  obtain ⟨hlookup, vk, hparse, hverify⟩ := checkPeerSig_eq_verified.mp (hcheck hauth)
  -- the signature was verified under the recorded key, which is that of the honest node
  have hvk : vk = prim.verifyingKey key := by
    rw [hlookup, Option.bind_some, hparse] at hrecorded
    exact Option.some.inj hrecorded
  rw [hvk] at hverify
  rcases (exists_signed h.network hsym hchal rfl hkey hverify).1.challenge with
    hgenerated | hreframed
  · exact hgenerated
  · exact absurd hreframed (hok c.eph (prim.verifyingKey key) heph hrecorded hverify)

/-- A step keeps the invariant if it receives no text of another kind as a challenge. -/
theorem ChallengeInv.step (h : ChallengeInv prim honest w) (hsym : prim.SymbolicSignatures)
    {event : SessionEvent} (hpermitted : w.Permitted prim honest event)
    (hok : w.NotReframed prim event) : ChallengeInv prim honest (w.step prim event) := by
  refine ⟨networkSigned_step h.network event, ?_⟩
  cases event with
  | sign signingKey text => exact h.generated
  | handshake event =>
    cases event with
    | connect signingKey uid ephSecret nonce =>
      intro a ha key hkey hrecorded
      obtain ⟨c, hc, hgenerated⟩ := h.generated a ha key hkey hrecorded
      exact ⟨c, List.mem_cons_of_mem _ hc, hgenerated⟩
    | finish handshake knownKeys resp => exact h.generated
    | accept signingKey uid knownKeys ephSecret chal =>
      rw [SessionWorld.step, HandshakeWorld.step, inboundHandshake]
      cases hread : readChallenge prim knownKeys chal with
      | error e => exact h.generated
      | ok c =>
        -- the accepted key is judged in the state before the step
        intro a ha key hkey hrecorded
        rcases List.mem_append.mp ha with hnew | hold
        · exact h.accepted hsym hread hpermitted.2 hok a hnew key hkey hrecorded
        · exact h.generated a hold key hkey hrecorded

/-- In every run in which no response and no application message is delivered as a challenge under
its signer's key, the ephemeral key that a responder accepts as authenticated was generated by the
owner of the recorded key. -/
theorem accepted_generated (prim : Primitives) (honest : List Bytes32)
    (hsym : prim.SymbolicSignatures) (w : SessionWorld)
    (hreach : w.ReachableUnder prim honest (NotReframed prim)) :
    w.AcceptedGenerated prim honest := by
  have hinv : ChallengeInv prim honest w := by
    induction hreach with
    | init => exact challengeInv_init
    | step event _ hpermitted hok ih => exact ih.step hsym hpermitted hok
  exact hinv.generated

/-- The step does not receive a challenge with a nonce of another length than those that
`outbound_handshake` sends, or with an ephemeral key that begins like an application message. -/
def ChallengeChecked : SessionWorld → SessionEvent → Prop
  | _, .handshake (.accept _ _ _ _ (.authChallenge _ _ ephHex nonce _)) =>
    nonce.length = 32 ∧ ∀ eph, hexTo32 ephHex = .ok eph → ¬ asBytes "chrono-" <+: eph.toList
  | _, _ => True

/-- A challenge of 64 bytes that does not begin like an application message is signed as nothing
else, if the responses are to nonces of 32 bytes. -/
theorem not_signedOtherwise {signer eph : Bytes32} {nonce : Bytes} (hnonce : nonce.length = 32)
    (hplain : ¬ asBytes "chrono-" <+: eph.toList)
    (hresponses : ∀ r ∈ w.handshakes.responses, r.nonce.length = 32) :
    ¬ w.SignedOtherwise prim signer (challengeText eph nonce) := by
  rintro (⟨r, hr, -, htext⟩ | ⟨p, -, -, htext⟩)
  -- the response has 96 bytes
  · have hlen := congrArg List.length htext
    simp [responseText, challengeText, hnonce, hresponses r hr] at hlen
  · refine hplain ?_
    have hprefix := p.2.isPrefix_bytes
    rw [← htext] at hprefix
    refine List.prefix_of_prefix_length_le hprefix (List.prefix_append _ _) ?_
    rw [Vector.length_toList]
    decide

/-- Checks of the nonce's length and of the first bytes of the key would be enough: nothing else
then reads as a challenge. The length alone is not, as a share text may have 64 bytes. -/
theorem ReachableUnder.notReframed (hreach : w.ReachableUnder prim honest ChallengeChecked) :
    w.ReachableUnder prim honest (NotReframed prim) ∧
      ∀ r ∈ w.handshakes.responses, r.nonce.length = 32 := by
  induction hreach with
  | init => exact ⟨.init, fun r hr => absurd hr List.not_mem_nil⟩
  | @step w event _ hpermitted hok ih =>
    obtain ⟨hreach, hlength⟩ := ih
    cases event with
    | sign signingKey text => exact ⟨.step _ hreach hpermitted trivial, hlength⟩
    | handshake event =>
      cases event with
      | connect => exact ⟨.step _ hreach hpermitted trivial, hlength⟩
      | finish => exact ⟨.step _ hreach hpermitted trivial, hlength⟩
      | accept signingKey uid knownKeys ephSecret chal =>
        constructor
        · refine .step _ hreach hpermitted ?_
          cases chal with
          | authChallenge chalUid keyHex ephHex nonce sig =>
            exact fun eph signer heph _ _ => not_signedOtherwise hok.1 (hok.2 eph heph) hlength
          | _ => trivial
        · rw [SessionWorld.step, HandshakeWorld.step, inboundHandshake]
          cases hread : readChallenge prim knownKeys chal with
          | error e => exact hlength
          | ok c =>
            intro r hr
            rcases List.mem_cons.mp hr with rfl | hr
            · obtain ⟨ephHex, sig, rfl, -⟩ := readChallenge_eq_ok hread
              exact hok.1
            · exact hlength r hr

open HandshakeWorld (symbolicPrimitives symbolicSignatures_symbolicPrimitives aliceKey bobKey
  bobChallenge)

/-- `alice` receives a challenge, with the key of `bob` on record. -/
def aliceAccepts (chal : PeerMessage) : SessionEvent :=
  .handshake (.accept aliceKey "alice"
    (ToMathlib.HashMap.ofPairs [("bob", hexEncode bobKey.toList)]) (.replicate 32 3) chal)

/-- `bob` signs a share of 42 bytes. -/
def bobShares : SessionEvent := .sign bobKey (.share "#g" 1 (List.replicate 42 0))

/-- `bob` connects. -/
def bobConnects : SessionEvent :=
  .handshake (.connect bobKey "bob" (.replicate 32 5) (.replicate 32 6))

/-- `bob` signs a share and connects, and `alice` accepts. -/
def bobMeetsAlice : SessionWorld :=
  [bobShares, bobConnects, aliceAccepts bobChallenge].foldl (step symbolicPrimitives) init

/-- An honest handshake is authenticated, with the key that `bob` generated. -/
theorem accepted_generated_bob :
    bobMeetsAlice.handshakes.accepted ≠ [] ∧
      bobMeetsAlice.AcceptedGenerated symbolicPrimitives [aliceKey, bobKey] := by
  refine ⟨by decide +kernel, accepted_generated symbolicPrimitives [aliceKey, bobKey]
    symbolicSignatures_symbolicPrimitives _ (ReachableUnder.notReframed ?_).1⟩
  have hbob : bobKey ∈ [aliceKey, bobKey] := by decide
  refine .step (aliceAccepts bobChallenge) (.step bobConnects (.step bobShares .init hbob trivial)
    hbob trivial) ⟨by decide, ?_⟩ ⟨Vector.length_toList, fun eph heph => ?_⟩
  · intro sig hsig
    exact Or.inl ⟨bobChallenge, List.mem_cons_self, hsig⟩
  · have hkey : hexTo32 (hexEncode (symbolicPrimitives.x25519Public (.replicate 32 5)).toList) =
        .ok (symbolicPrimitives.x25519Public (.replicate 32 5)) := by
      rw [hexTo32, hexDecode_hexEncode]
      rfl
    obtain rfl := Except.ok.inj (hkey.symm.trans heph)
    decide +kernel

/-- A challenge of a stranger, with the ephemeral key `99…`. -/
def strangerChallenge : PeerMessage :=
  .authChallenge "mal" "" (hexEncode (Vector.replicate 32 (9 : UInt8)).toList) [] []

/-- `bob` answers the stranger. -/
def bobAnswersStranger : SessionEvent :=
  .handshake (.accept bobKey "bob" ∅ (.replicate 32 4) strangerChallenge)

/-- The response of `bob` to the stranger, as a challenge. -/
def reframedResponse : PeerMessage :=
  .authChallenge "bob" (hexEncode bobKey.toList)
    (hexEncode (Vector.replicate 32 (9 : UInt8)).toList) (Vector.replicate 32 (4 : UInt8)).toList
    (symbolicPrimitives.sign bobKey (responseText (.replicate 32 9) (.replicate 32 4) []))

/-- The stranger has `alice` accept the answer of `bob` as a challenge. -/
def strangerConnects : SessionWorld :=
  [bobAnswersStranger, aliceAccepts reframedResponse].foldl (step symbolicPrimitives) init

/-- A stranger is accepted as `bob`, with an ephemeral key of its own. -/
theorem not_accepted_generated :
    ¬ ∀ (prim : Primitives) (honest : List Bytes32), prim.SymbolicSignatures →
      ∀ w : SessionWorld, w.ReachableUnder prim honest (fun _ _ => True) →
        w.AcceptedGenerated prim honest := by
  intro hclaim
  have hreach : strangerConnects.ReachableUnder symbolicPrimitives [aliceKey, bobKey]
      (fun _ _ => True) := by
    refine .step (aliceAccepts reframedResponse) (.step bobAnswersStranger .init
      ⟨by decide, ?_⟩ trivial) ⟨by decide, ?_⟩ trivial
    -- the empty signature of the stranger verifies under no key
    · intro sig hsig
      obtain rfl := Option.some.inj hsig
      refine Or.inr (Or.inr fun key _ text => decide_eq_false fun heq => ?_)
      have hlen := congrArg List.length heq
      simp at hlen
      omega
    -- the signature is the one of the response that `bob` has sent
    · intro sig hsig
      have hsent : reframedResponse.handshakeSignature ∈
          (step symbolicPrimitives init bobAnswersStranger).handshakes.network.map
            PeerMessage.handshakeSignature := by
        decide +kernel
      obtain ⟨m, hm, hseen⟩ := List.mem_map.mp hsent
      exact Or.inl ⟨m, hm, hseen.trans hsig⟩
  have hgenerated := hclaim symbolicPrimitives [aliceKey, bobKey]
    symbolicSignatures_symbolicPrimitives strangerConnects hreach
    ⟨some (hexEncode bobKey.toList), .replicate 32 9⟩ (by decide +kernel) bobKey (by decide)
    (by decide +kernel)
  obtain ⟨c, hc, -⟩ := hgenerated
  have hnone : strangerConnects.handshakes.challenges = [] := by decide +kernel
  rw [hnone] at hc
  cases hc

end SessionWorld

end ChronoShift
