import ChronoShift.Net.Displacement

/-!
# First contact

A handshake authenticates its peer under the key on record, and a task pins the key of a peer that
it has authenticated. What is pinned was therefore on record before: no handshake puts a key on
record, and a peer without a key on record stays without one until it is registered.

* `ManagerWorld.AuthenticatedKnown`: who is authenticated has a key on record, in every run;
* `ManagerWorld.knownPeerKeys_run`: handshakes leave the keys on record as they are;
* `ManagerWorld.handshake_of_record`: what this means for the handshakes of a run.
-/

namespace ChronoShift

/-- What a peer claims in a handshake. -/
structure HandshakeClaim where
  uid : String
  keyHex : String
  /-- The text that the signature has to be for. -/
  text : Bytes
  sig : Bytes

/-- The step ends the handshake of the task, and it passes every check but that of the signature:
the uid is valid and the expected one, and the ephemeral key contributes to the shared secret. -/
inductive TaskPhase.Claims (prim : Primitives) : TaskPhase → TaskEvent → HandshakeClaim → Prop
  | inbound {selfUid uid keyHex ephHex : String} {ephSecret eph : Bytes32} {nonce sig : Bytes}
      (huid : validateUid uid = true) (heph : hexTo32 ephHex = .ok eph)
      (hshared : prim.wasContributory (prim.diffieHellman ephSecret eph) = true) :
      Claims prim .accepted
        (.challenge selfUid ephSecret (.authChallenge uid keyHex ephHex nonce sig))
        ⟨uid, keyHex, challengeText eph nonce, sig⟩
  | outbound {uid keyHex ephHex : String} {ephSecret nonce eph : Bytes32} {sig : Bytes}
      (huid : validateUid uid = true) (heph : hexTo32 ephHex = .ok eph)
      (hshared : prim.wasContributory (prim.diffieHellman ephSecret eph) = true) :
      Claims prim (.dialled uid ephSecret nonce) (.response (.authResponse uid keyHex ephHex sig))
        ⟨uid, keyHex, responseText (prim.x25519Public ephSecret) eph nonce.toList, sig⟩

/-- The check of the peer's signature, against the keys on record. -/
def HandshakeClaim.check (prim : Primitives) (knownKeys : HashMap String String)
    (claim : HandshakeClaim) : PeerSigCheck :=
  checkPeerSig prim knownKeys claim.uid claim.keyHex claim.text claim.sig

/-- The handshake has ended with the keys of a session with the peer. -/
def HandshakeClaim.Agrees (claim : HandshakeClaim) (authenticated : Bool) (phase : TaskPhase) :
    Prop :=
  ∃ session, phase = .agreed session ∧ session.peerUid = claim.uid ∧
    session.peerPublicHex = claim.keyHex ∧ session.peerAuthenticated = authenticated

variable {prim : Primitives} {self : Bytes32}

variable (self) in
/-- The check of the signature decides. -/
theorem TaskPhase.Claims.runTask {phase : TaskPhase} {event : TaskEvent} {claim : HandshakeClaim}
    (h : phase.Claims prim event claim) (sessions : SessionWorld) (cm : ConnectionManager) (k : ℕ) :
    let check := claim.check prim cm.knownPeerKeys
    let phase' := (runTask prim self sessions cm k phase event).2.2
    if check = .rejected then phase' = .failed
    else claim.Agrees (check = .verified) phase' := by
  cases h with
  | @inbound selfUid uid keyHex ephHex ephSecret eph nonce sig huid heph hshared =>
    simp only [HandshakeClaim.check, ChronoShift.runTask, inboundHandshake, readChallenge,
      if_pos huid, heph]
    split
    next => rfl
    next =>
      simp only [inboundFinish, deriveShared, if_pos hshared]
      exact ⟨_, rfl, rfl, rfl, rfl⟩
  | @outbound uid keyHex ephHex ephSecret nonce eph sig huid heph hshared =>
    simp only [HandshakeClaim.check, ChronoShift.runTask, outboundFinish, if_pos huid, heph]
    split
    next => rfl
    next =>
      simp only [deriveShared, if_pos hshared]
      exact ⟨_, congrArg TaskPhase.ofResult (connectToPeerResult_eq_ok.mpr ⟨rfl, rfl⟩), rfl, rfl,
        rfl⟩

theorem TaskPhase.Claims.session_eq_none {phase : TaskPhase} {event : TaskEvent}
    {claim : HandshakeClaim} (h : phase.Claims prim event claim) : phase.session = none := by
  cases h <;> rfl

/-- After a handshake, the keys are those of the result. -/
theorem ofResult_eq_agreed {result : Except HandshakeError SessionKeys} {session : SessionKeys} :
    TaskPhase.ofResult result = .agreed session ↔ result = .ok session := by
  cases result with
  | error e => exact ⟨nofun, nofun⟩
  | ok session' => exact ⟨fun h => congrArg Except.ok (TaskPhase.agreed.inj h), fun h =>
      congrArg TaskPhase.agreed (Except.ok.inj h)⟩

/-- A handshake that is completed has passed all checks. -/
theorem TaskPhase.exists_claims {phase : TaskPhase} {event : TaskEvent} {session : SessionKeys}
    {sessions : SessionWorld} {cm : ConnectionManager} {k : ℕ} (hphase : phase.session = none)
    (h : (runTask prim self sessions cm k phase event).2.2 = .agreed session) :
    ∃ claim, phase.Claims prim event claim ∧ claim.uid = session.peerUid ∧
      claim.keyHex = session.peerPublicHex := by
  unfold ChronoShift.runTask at h
  split at h
  -- the challenge passes all checks, and its key is the one that is claimed
  next selfUid ephSecret chal =>
    obtain ⟨c, hread, hfinish⟩ := inboundHandshake_eq_ok (ofResult_eq_agreed.mp h)
    unfold readChallenge at hread
    split at hread
    next uid keyHex ephHex nonce sig =>
      split at hread
      next huid =>
        split at hread
        next => cases hread
        next eph heph =>
          dsimp only at hread
          split at hread
          next => cases hread
          next =>
            obtain rfl := Except.ok.inj hread
            rw [inboundFinish, deriveShared] at hfinish
            dsimp only at hfinish
            split at hfinish
            next hshared =>
              obtain rfl := Except.ok.inj hfinish
              exact ⟨_, .inbound huid heph hshared, rfl, rfl⟩
            next => cases hfinish
      next => cases hread
    next => cases hread
  -- the response does, and it is from the uid that was dialled
  next uid ephSecret nonce resp =>
    obtain ⟨hfinish, hpeer⟩ := connectToPeerResult_eq_ok.mp (ofResult_eq_agreed.mp h)
    unfold outboundFinish at hfinish
    split at hfinish
    next respUid keyHex ephHex sig =>
      split at hfinish
      next huid =>
        split at hfinish
        next => cases hfinish
        next eph heph =>
          dsimp only at hfinish
          split at hfinish
          next => cases hfinish
          next =>
            rw [deriveShared] at hfinish
            split at hfinish
            next hshared =>
              obtain rfl := Except.ok.inj hfinish
              dsimp only at hpeer
              subst hpeer
              exact ⟨_, .outbound huid heph hshared, rfl, rfl⟩
            next => cases hfinish
      next => cases hfinish
    next => cases hfinish
  -- a task in any other phase does not agree on keys
  next => cases hphase
  next => cases hphase
  next => cases hphase
  next =>
    dsimp only at h
    rw [h] at hphase
    cases hphase

/-- A responder authenticates under the key on record. -/
theorem lookup_of_inboundHandshake {auth : SessionAuth} {knownKeys : HashMap String String}
    {ephSecret : Bytes32} {chal : PeerMessage} {session : SessionKeys}
    (h : (inboundHandshake prim auth knownKeys ephSecret chal).2 = .ok session)
    (hauth : session.peerAuthenticated = true) : (knownKeys.lookup session.peerUid).isSome := by
  obtain ⟨c, hread, hfinish⟩ := inboundHandshake_eq_ok h
  obtain ⟨-, -, hcuid, hcauth⟩ := inboundFinish_eq_ok hfinish
  obtain ⟨ephHex, sig, -, -, hcheck⟩ := readChallenge_eq_ok hread
  rw [hcuid, (checkPeerSig_eq_verified.mp (hcheck (hcauth ▸ hauth))).1]
  rfl

/-- An initiator authenticates under the key on record. -/
theorem lookup_of_outboundFinish {knownKeys : HashMap String String} {ephSecret nonce : Bytes32}
    {resp : PeerMessage} {session : SessionKeys}
    (h : outboundFinish prim knownKeys ephSecret nonce resp = .ok session)
    (hauth : session.peerAuthenticated = true) : (knownKeys.lookup session.peerUid).isSome := by
  obtain ⟨ephHex, sig, respEph, -, -, hcheck, -⟩ := outboundFinish_eq_ok h
  rw [(checkPeerSig_eq_verified.mp (hcheck hauth)).1]
  rfl

namespace ManagerWorld

variable {w : ManagerWorld}

/-- The keys of a task are authenticated only if there is a key on record for the peer. -/
def KnownPhase (knownKeys : HashMap String String) (phase : TaskPhase) : Prop :=
  ∀ session, phase.session = some session → session.peerAuthenticated = true →
    (knownKeys.lookup session.peerUid).isSome

/-- Whoever is authenticated has a key on record. -/
def AuthenticatedKnown (w : ManagerWorld) : Prop :=
  ∀ k c, w.connections.lookup k = some c → KnownPhase w.manager.knownPeerKeys c.phase

theorem knownPhase_ofResult {knownKeys : HashMap String String}
    {result : Except HandshakeError SessionKeys}
    (h : ∀ session, result = .ok session → session.peerAuthenticated = true →
      (knownKeys.lookup session.peerUid).isSome) : KnownPhase knownKeys (.ofResult result) := by
  intro session hsession hauth
  cases result with
  | error e => cases hsession
  | ok session' =>
    obtain rfl := Option.some.inj hsession
    exact h session' rfl hauth

/-- What a task pins is on record already. -/
theorem pinPeer_of_known {cm : ConnectionManager} {session : SessionKeys}
    (h : session.peerAuthenticated = true → (cm.knownPeerKeys.lookup session.peerUid).isSome) :
    cm.pinPeer session = cm := by
  rw [ConnectionManager.pinPeer]
  split
  next hauth =>
    obtain ⟨key, hkey⟩ := Option.isSome_iff_exists.mp (h hauth)
    rw [hkey]
  next => rfl

variable (prim self) in
/-- The step of a task leaves the keys on record as they are, and authenticates no one else. -/
theorem KnownPhase.runTask {cm : ConnectionManager} {phase : TaskPhase}
    (h : KnownPhase cm.knownPeerKeys phase) (sessions : SessionWorld) (k : ℕ) (event : TaskEvent) :
    (runTask prim self sessions cm k phase event).2.1.knownPeerKeys = cm.knownPeerKeys ∧
      KnownPhase cm.knownPeerKeys (runTask prim self sessions cm k phase event).2.2 := by
  unfold ChronoShift.runTask
  split
  next uid ephSecret chal =>
    exact ⟨rfl, knownPhase_ofResult fun _ hsession => lookup_of_inboundHandshake hsession⟩
  next uid ephSecret nonce resp =>
    refine ⟨rfl, knownPhase_ofResult fun session hsession => ?_⟩
    exact lookup_of_outboundFinish (connectToPeerResult_eq_ok.mp hsession).1
  next session =>
    dsimp only
    rw [pinPeer_of_known (h session rfl)]
    exact ⟨rfl, h⟩
  next => exact ⟨rfl, h⟩
  next => exact ⟨ConnectionManager.knownPeerKeys_removeConnection _ _, h⟩
  next => exact ⟨rfl, h⟩

/-- Carry out the steps of a run. -/
def run (prim : Primitives) (self : Bytes32) (w : ManagerWorld) (events : List ManagerEvent) :
    ManagerWorld :=
  events.foldl (step prim self) w

theorem AuthenticatedKnown.insert (h : w.AuthenticatedKnown) {k : ℕ} {c : Connection}
    (hc : KnownPhase w.manager.knownPeerKeys c.phase) (k' : ℕ) (c' : Connection)
    (hc' : (w.connections.insert k c).lookup k' = some c') :
    KnownPhase w.manager.knownPeerKeys c'.phase := by
  rw [ToMathlib.HashMap.lookup_insert_ite] at hc'
  split at hc'
  next =>
    obtain rfl := Option.some.inj hc'
    exact hc
  next => exact h k' c' hc'

variable (prim self) in
/-- A step that is not the registration of `uid` leaves its record as it is. -/
theorem AuthenticatedKnown.step (h : w.AuthenticatedKnown) {uid : String} {event : ManagerEvent}
    (hregister : ∀ key, event ≠ .register uid key) :
    (w.step prim self event).AuthenticatedKnown ∧
      (w.step prim self event).manager.knownPeerKeys.lookup uid =
        w.manager.knownPeerKeys.lookup uid := by
  have hnone {phase : TaskPhase} (hphase : phase.session = none) :
      KnownPhase w.manager.knownPeerKeys phase := by
    intro session hsession
    rw [hphase] at hsession
    cases hsession
  cases event with
  | node event => exact ⟨h, rfl⟩
  | register uid' publicKey =>
    have hlookup (u : String) :
        (w.step prim self (.register uid' publicKey)).manager.knownPeerKeys.lookup u =
          if u = uid' then some publicKey else w.manager.knownPeerKeys.lookup u :=
      ToMathlib.HashMap.lookup_insert_ite ..
    refine ⟨fun k c hc session hsession hauth => ?_, ?_⟩
    -- a record may be replaced, but it is not taken away
    · rw [hlookup]
      split
      · rfl
      · exact h k c hc session hsession hauth
    · rw [hlookup, if_neg]
      rintro rfl
      exact hregister publicKey rfl
  | accept k opener =>
    rw [ManagerWorld.step]
    split
    next => exact ⟨h, rfl⟩
    next => exact ⟨h.insert (hnone rfl), rfl⟩
  | dial k uid' selfUid ephSecret nonce =>
    rw [ManagerWorld.step]
    split
    next => exact ⟨h, rfl⟩
    next => exact ⟨h.insert (hnone rfl), rfl⟩
  | task k event =>
    cases hc : w.connections.lookup k with
    | none =>
      rw [ManagerWorld.step, hc]
      exact ⟨h, rfl⟩
    | some c =>
      rw [step_task hc]
      obtain ⟨hkeys, hphase⟩ := (h k c hc).runTask prim self w.sessions k event
      refine ⟨fun k' c' hc' => ?_, congrArg (fun keys => keys.lookup uid) hkeys⟩
      dsimp only at hc' ⊢
      rw [hkeys]
      exact h.insert hphase k' c' hc'

variable (prim self) in
/-- In a run without a registration of `uid`, its record stays as it is. -/
theorem AuthenticatedKnown.run (h : w.AuthenticatedKnown) {uid : String}
    {events : List ManagerEvent} (hregister : ∀ key, .register uid key ∉ events) :
    (w.run prim self events).AuthenticatedKnown ∧
      (w.run prim self events).manager.knownPeerKeys.lookup uid =
        w.manager.knownPeerKeys.lookup uid := by
  induction events generalizing w with
  | nil => exact ⟨h, rfl⟩
  | cons event events ih =>
    obtain ⟨hstep, hlookup⟩ := h.step prim self fun key (hevent : event = .register uid key) =>
      hregister key (hevent ▸ List.mem_cons_self)
    obtain ⟨hrun, hlookup'⟩ := ih hstep fun key hmem => hregister key (List.mem_cons_of_mem _ hmem)
    exact ⟨hrun, hlookup'.trans hlookup⟩

/-- Before there are connections, nobody is authenticated. -/
theorem authenticatedKnown_of_connections (h : w.connections = ∅) : w.AuthenticatedKnown := by
  intro k c hc
  rw [h] at hc
  cases hc

/-- The step ends the handshake of connection `k`, in which the peer makes this claim. -/
def Claims (prim : Primitives) (w : ManagerWorld) (k : ℕ) (event : TaskEvent)
    (claim : HandshakeClaim) : Prop :=
  ∃ c, w.connections.lookup k = some c ∧ c.phase.Claims prim event claim

/-- The step completes the handshake of connection `k`, with these keys. -/
def Completes (prim : Primitives) (self : Bytes32) (w : ManagerWorld) (k : ℕ) (event : TaskEvent)
    (session : SessionKeys) : Prop :=
  ∃ c, w.connections.lookup k = some c ∧ c.phase.session = none ∧
    (w.step prim self (.task k event)).connections.lookup k =
      some { c with phase := .agreed session }

/-- Whoever claims to be `uid` is let in under the key that it claims, and is not authenticated. -/
def LetsIn (prim : Primitives) (self : Bytes32) (uid : String) (w : ManagerWorld) : Prop :=
  (∀ k event session, w.Completes prim self k event session → session.peerUid = uid →
    session.peerAuthenticated = false) ∧
  ∀ k event claim, w.Claims prim k event claim → claim.uid = uid →
    ∃ session, w.Completes prim self k event session ∧ session.peerUid = uid ∧
      session.peerPublicHex = claim.keyHex

/-- Whoever claims to be `uid` is rejected under another key than `keyHex`, and is authenticated by
a correct signature under `keyHex`. -/
def HoldsTo (prim : Primitives) (self : Bytes32) (uid keyHex : String) (w : ManagerWorld) : Prop :=
  (∀ k event session, w.Completes prim self k event session → session.peerUid = uid →
    session.peerPublicHex = keyHex) ∧
  ∀ k event claim vk, w.Claims prim k event claim → claim.uid = uid → claim.keyHex = keyHex →
    parseIdentityKey prim keyHex = some vk → prim.verify vk claim.text claim.sig = true →
      ∃ session, w.Completes prim self k event session ∧ session.peerUid = uid ∧
        session.peerAuthenticated = true

/-- A completed handshake was checked against the key on record. -/
theorem Completes.exists_claims {k : ℕ} {event : TaskEvent} {session : SessionKeys}
    (h : w.Completes prim self k event session) :
    ∃ claim, w.Claims prim k event claim ∧ claim.uid = session.peerUid ∧
      claim.keyHex = session.peerPublicHex ∧
      claim.check prim w.manager.knownPeerKeys ≠ .rejected ∧
      session.peerAuthenticated =
        decide (claim.check prim w.manager.knownPeerKeys = .verified) := by
  obtain ⟨c, hc, hphase, hstep⟩ := h
  have hagreed : (runTask prim self w.sessions w.manager k c.phase event).2.2 =
      .agreed session := by
    rw [step_task hc, ToMathlib.HashMap.lookup_insert_ite, if_pos rfl] at hstep
    exact congrArg Connection.phase (Option.some.inj hstep)
  obtain ⟨claim, hclaim, huid, hkey⟩ := TaskPhase.exists_claims hphase hagreed
  have hresult := hclaim.runTask self w.sessions w.manager k
  dsimp only at hresult
  rw [hagreed] at hresult
  split at hresult
  next => cases hresult
  next hcheck =>
    obtain ⟨session', hsession, -, -, hauth⟩ := hresult
    obtain rfl := TaskPhase.agreed.inj hsession
    exact ⟨claim, ⟨c, hc, hclaim⟩, huid, hkey, hcheck, hauth⟩

variable (self) in
/-- A handshake whose signature is not rejected completes. -/
theorem Claims.exists_completes {k : ℕ} {event : TaskEvent} {claim : HandshakeClaim}
    (h : w.Claims prim k event claim)
    (hcheck : claim.check prim w.manager.knownPeerKeys ≠ .rejected) :
    ∃ session, w.Completes prim self k event session ∧ session.peerUid = claim.uid ∧
      session.peerPublicHex = claim.keyHex ∧
      session.peerAuthenticated =
        decide (claim.check prim w.manager.knownPeerKeys = .verified) := by
  obtain ⟨c, hc, hclaim⟩ := h
  have hresult := hclaim.runTask self w.sessions w.manager k
  dsimp only at hresult
  rw [if_neg hcheck] at hresult
  obtain ⟨session, hagreed, huid, hkey, hauth⟩ := hresult
  refine ⟨session, ⟨c, hc, hclaim.session_eq_none, ?_⟩, huid, hkey, hauth⟩
  rw [step_task hc, ToMathlib.HashMap.lookup_insert_ite, if_pos rfl, hagreed]

/-- Without a key on record, every signature passes, and none is verified. -/
theorem letsIn_of_lookup {uid : String} (h : w.manager.knownPeerKeys.lookup uid = none) :
    w.LetsIn prim self uid := by
  have hcheck (claim : HandshakeClaim) (huid : claim.uid = uid) :
      claim.check prim w.manager.knownPeerKeys = .unverified := by
    rw [HandshakeClaim.check, checkPeerSig, huid, h]
  refine ⟨fun k event session hcompletes huid => ?_, fun k event claim hclaim huid => ?_⟩
  · obtain ⟨claim, -, huid', -, -, hauth⟩ := hcompletes.exists_claims
    rw [hauth, hcheck claim (huid'.trans huid)]
    rfl
  · obtain ⟨session, hcompletes, huid', hkey, -⟩ := hclaim.exists_completes self (by
      rw [hcheck claim huid]
      rintro ⟨⟩)
    exact ⟨session, hcompletes, huid'.trans huid, hkey⟩

/-- With a key on record, the claimed key has to be that key. -/
theorem holdsTo_of_lookup {uid keyHex : String}
    (h : w.manager.knownPeerKeys.lookup uid = some keyHex) : w.HoldsTo prim self uid keyHex := by
  refine ⟨fun k event session hcompletes huid => ?_,
    fun k event claim vk hclaim huid hkey hparse hverify => ?_⟩
  · obtain ⟨claim, -, huid', hkey, hcheck, -⟩ := hcompletes.exists_claims
    by_contra hdiffers
    refine hcheck ?_
    rw [HandshakeClaim.check, checkPeerSig, huid'.trans huid, h]
    exact if_pos fun heq => hdiffers (hkey.symm.trans heq.symm)
  · have hverified : claim.check prim w.manager.knownPeerKeys = .verified := by
      rw [HandshakeClaim.check, huid, hkey]
      exact checkPeerSig_eq_verified.mpr ⟨h, vk, hparse, hverify⟩
    obtain ⟨session, hcompletes, huid', -, hauth⟩ := hclaim.exists_completes self (by
      rw [hverified]
      rintro ⟨⟩)
    rw [hverified] at hauth
    exact ⟨session, hcompletes, huid'.trans huid, hauth⟩

/-- Only authenticated peers are pinned, and only peers with a key on record are authenticated. So
in every run of handshakes, in any order and any number at a time, the key on record for `uid` stays
as it is until it is registered. If there is none at the start, every handshake under `uid` goes
through unauthenticated, whatever key it claims and whatever has gone through before. If there is
one, a handshake under another key is rejected, and a correct signature under it authenticates. -/
theorem record_decides (prim : Primitives) (self : Bytes32) (uid : String) (w : ManagerWorld)
    (hstart : w.connections = ∅) (events : List ManagerEvent)
    (hregister : ∀ key, .register uid key ∉ events) :
    (w.run prim self events).manager.knownPeerKeys.lookup uid =
        w.manager.knownPeerKeys.lookup uid ∧
      (w.manager.knownPeerKeys.lookup uid = none →
        (w.run prim self events).LetsIn prim self uid) ∧
      ∀ keyHex, w.manager.knownPeerKeys.lookup uid = some keyHex →
        (w.run prim self events).HoldsTo prim self uid keyHex := by
  obtain ⟨-, hlookup⟩ :=
    (authenticatedKnown_of_connections hstart).run prim self hregister
  exact ⟨hlookup, fun hnone => letsIn_of_lookup (hlookup.trans hnone),
    fun keyHex hkey => holdsTo_of_lookup (hlookup.trans hkey)⟩

open HandshakeWorld (symbolicPrimitives aliceKey bobKey bobChallenge)

/-- With the key of `bob` on record, `alice` holds to it after his connection. Without it, his
connection leaves her as she was. -/
theorem record_decides_bob :
    ((init.step symbolicPrimitives aliceKey (.register "bob" bobSession.peerPublicHex)).run
      symbolicPrimitives aliceKey (connectionEvents 0 none (.replicate 32 3) bobChallenge)).HoldsTo
        symbolicPrimitives aliceKey "bob" bobSession.peerPublicHex ∧
    (init.run symbolicPrimitives aliceKey
      (connectionEvents 0 none (.replicate 32 3) bobChallenge)).LetsIn
        symbolicPrimitives aliceKey "bob" := by
  have hregister (key : String) :
      .register "bob" key ∉ connectionEvents 0 none (.replicate 32 3) bobChallenge := by
    simp [connectionEvents]
  exact ⟨(record_decides symbolicPrimitives aliceKey "bob" _ rfl _ hregister).2.2 _ rfl,
    (record_decides symbolicPrimitives aliceKey "bob" _ rfl _ hregister).2.1 rfl⟩

/-- A challenge of somebody else in the name of `bob`. -/
def strangerAsBob : PeerMessage :=
  outboundChallenge symbolicPrimitives (.ofIdentity symbolicPrimitives "bob" (.replicate 32 7))
    (.replicate 32 5) (.replicate 32 6)

/-- A first contact binds nobody: after a completed handshake of `bob`, somebody else completes one
in his name. -/
theorem not_trust_on_first_use :
    ¬ ∀ (prim : Primitives) (self : Bytes32) (uid : String) (w : ManagerWorld),
      w.connections = ∅ → w.manager.knownPeerKeys.lookup uid = none →
        ∀ (events later : List ManagerEvent) (k : ℕ) (event : TaskEvent) (session : SessionKeys),
          (∀ key, .register uid key ∉ events ++ later) →
          (w.run prim self events).Completes prim self k event session → session.peerUid = uid →
            (((w.run prim self events).step prim self (.task k event)).run prim self later).HoldsTo
              prim self uid session.peerPublicHex := by
  intro hclaim
  have hholds := hclaim symbolicPrimitives aliceKey "bob" init rfl rfl [.accept 0 none]
    [.task 0 .pin, .task 0 .enter, .accept 1 none] 0
    (.challenge "alice" (.replicate 32 3) bobChallenge)
    { bobSession with peerAuthenticated := false } (by simp)
    ⟨⟨none, .accepted⟩, rfl, rfl, by decide +kernel⟩ rfl
  have hkey := hholds.1 1 (.challenge "alice" (.replicate 32 4) strangerAsBob)
    ⟨.replicate 32 0, .replicate 32 0, "bob", hexEncode (List.replicate 32 7), false⟩
    ⟨⟨none, .accepted⟩, rfl, rfl, by decide +kernel⟩ rfl
  revert hkey
  decide +kernel

end ManagerWorld

end ChronoShift
