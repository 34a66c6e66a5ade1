import ChronoShift.Net.ConnectionManager

/-!
# Displacement of a connection by a replay

A responder authenticates its peer by one message, in which nothing comes from the responder
itself. A recorded challenge is therefore accepted once more, on any other connection, and the entry
of this connection replaces the one of the peer.

* `ManagerWorld.Undisturbed`: the steps that are not of this kind;
* `ManagerWorld.not_displaces`: in runs of such steps, no entry is displaced.
-/

namespace ChronoShift

/-- The signature was made with the identity key of `peer`. -/
def SessionWorld.MadeBy (prim : Primitives) (w : SessionWorld) (peer : Bytes32) (sig : Bytes) :
    Prop :=
  ∃ key text, prim.verifyingKey key = prim.verifyingKey peer ∧ sig = prim.sign key text ∧
    w.Signed prim (prim.verifyingKey peer) text

namespace ManagerWorld

/-- The entry is that of a connection which `peer` has opened, with a session that is authenticated
under the key of `peer`. -/
def AuthenticatedBy (prim : Primitives) (peer : Bytes32) (w : ManagerWorld) (writer : PeerWriter) :
    Prop :=
  ∃ session, w.connections.lookup writer.connection =
      some ⟨some peer, .entered session writer.connId⟩ ∧
    session.peerAuthenticated = true ∧
      parseIdentityKey prim session.peerPublicHex = some (prim.verifyingKey peer)

/-- The entry of an authenticated connection of `peer` is replaced by the entry of a connection that
`peer` has not opened. -/
def Displaces (prim : Primitives) (peer : Bytes32) (uid : String) (w w' : ManagerWorld) : Prop :=
  ∃ writer writer' c', w.manager.activeConnections.lookup uid = some writer ∧
    w.AuthenticatedBy prim peer writer ∧
    w'.manager.activeConnections.lookup uid = some writer' ∧
    w'.connections.lookup writer'.connection = some c' ∧ c'.opener ≠ some peer

/-- The step leaves `uid` to `peer`. -/
def Undisturbed (prim : Primitives) (peer : Bytes32) (uid : String) (w : ManagerWorld) :
    ManagerEvent → Prop
  -- only the key of `peer` is put on record
  | .register uid' publicKey =>
    uid' = uid → parseIdentityKey prim publicKey = some (prim.verifyingKey peer)
  -- the node does not connect to `peer` itself
  | .dial _ uid' _ _ _ => uid' ≠ uid
  -- once a key is on record, a challenge on a connection of another party is not a replay
  | .task k (.challenge _ _ (.authChallenge uid' _ _ _ sig)) =>
    ∀ c, w.connections.lookup k = some c → c.opener ≠ some peer → uid' = uid →
      (w.manager.knownPeerKeys.lookup uid).isSome → ¬ w.sessions.MadeBy prim peer sig
  -- and what was let in without a key is not entered later
  | .task k .enter =>
    ∀ c session, w.connections.lookup k = some c → c.opener ≠ some peer →
      c.phase = .pinned session → session.peerUid = uid → session.peerAuthenticated = false →
        w.manager.knownPeerKeys.lookup uid = none
  | _ => True

/-- A connection under `uid` is authenticated only if `peer` has opened it, and then there is a key
on record. -/
structure SoundAt (peer : Bytes32) (uid : String) (recorded : Option String) (c : Connection) :
    Prop where
  dialled : ∀ uid' ephSecret nonce, c.phase = .dialled uid' ephSecret nonce → uid' ≠ uid
  authenticated : ∀ session, c.phase.session = some session → session.peerUid = uid →
    session.peerAuthenticated = true → recorded.isSome ∧ c.opener = some peer

/-- The invariant of undisturbed runs. -/
structure Inv (prim : Primitives) (peer : Bytes32) (uid : String) (w : ManagerWorld) : Prop where
  network : w.sessions.handshakes.NetworkSigned prim
  keys : ∀ keyHex, w.manager.knownPeerKeys.lookup uid = some keyHex →
    parseIdentityKey prim keyHex = some (prim.verifyingKey peer)
  connections : ∀ k c, w.connections.lookup k = some c →
    SoundAt peer uid (w.manager.knownPeerKeys.lookup uid) c
  owned : w.Owned

variable {prim : Primitives} {honest : List Bytes32} {self peer : Bytes32} {uid : String}
  {w : ManagerWorld}

/-- What is authenticated under `uid` carries a signature of `peer`. -/
theorem Inv.challenge (h : Inv prim peer uid w) (hsym : prim.SymbolicSignatures)
    (hpeer : peer ∈ honest) {auth : SessionAuth} {ephSecret : Bytes32} {chal : PeerMessage}
    {session : SessionKeys} (hchal : w.sessions.Deliverable prim honest chal)
    (hsession : (inboundHandshake prim auth w.manager.knownPeerKeys ephSecret chal).2 =
      .ok session) (huid : session.peerUid = uid) (hauth : session.peerAuthenticated = true) :
    (w.manager.knownPeerKeys.lookup uid).isSome ∧ ∃ keyHex ephHex nonce sig,
      chal = .authChallenge uid keyHex ephHex nonce sig ∧ w.sessions.MadeBy prim peer sig := by
  obtain ⟨c, hread, hfinish⟩ := inboundHandshake_eq_ok hsession
  obtain ⟨-, -, hcuid, hcauth⟩ := inboundFinish_eq_ok hfinish
  obtain ⟨ephHex, sig, rfl, -, hcheck⟩ := readChallenge_eq_ok hread
  rw [hcauth] at hauth
  rw [hcuid] at huid
  obtain ⟨hlookup, vk, hparse, hverify⟩ := checkPeerSig_eq_verified.mp (hcheck hauth)
  rw [huid] at hlookup
  -- the key on record is that of `peer`
  rw [h.keys _ hlookup] at hparse
  obtain rfl := Option.some.inj hparse
  obtain ⟨hsigned, key, hkey, hsig⟩ := SessionWorld.exists_signed h.network hsym hchal rfl hpeer
    hverify
  refine ⟨?_, c.keyHex, ephHex, c.nonce, sig, ?_, key, _, hkey, hsig, hsigned⟩
  · rw [hlookup]
    rfl
  · rw [huid]

/-- A connection stays sound when its phase changes to one with the same keys. -/
theorem SoundAt.congr {recorded recorded' : Option String} {c : Connection} {phase : TaskPhase}
    (h : SoundAt peer uid recorded c) (hrecorded : recorded.isSome → recorded'.isSome)
    (hdialled : ∀ uid' ephSecret nonce, phase = .dialled uid' ephSecret nonce → phase = c.phase)
    (hsession : phase.session = c.phase.session) :
    SoundAt peer uid recorded' { c with phase } := by
  refine ⟨fun uid' ephSecret nonce hphase => ?_, fun session hphase huid hauth => ?_⟩
  · exact h.dialled uid' ephSecret nonce ((hdialled _ _ _ hphase).symm.trans hphase)
  · obtain ⟨hsome, hopener⟩ := h.authenticated session (hsession.symm.trans hphase) huid hauth
    exact ⟨hrecorded hsome, hopener⟩

/-- A task that has no keys yet, and does not wait for a response, is sound. -/
theorem SoundAt.of_session_eq_none {recorded : Option String} {c : Connection}
    (hdialled : ∀ uid' ephSecret nonce, c.phase = .dialled uid' ephSecret nonce → uid' ≠ uid)
    (hsession : c.phase.session = none) : SoundAt peer uid recorded c := by
  refine ⟨hdialled, fun session hphase => ?_⟩
  rw [hsession] at hphase
  cases hphase

/-- After a handshake, only the keys matter. -/
theorem SoundAt.ofResult {recorded : Option String} {opener : Option Bytes32}
    {result : Except HandshakeError SessionKeys}
    (h : ∀ session, result = .ok session → session.peerUid = uid →
      session.peerAuthenticated = true → recorded.isSome ∧ opener = some peer) :
    SoundAt peer uid recorded ⟨opener, .ofResult result⟩ := by
  cases result with
  | error e => exact .of_session_eq_none (fun _ _ _ hphase => nomatch hphase) rfl
  | ok session =>
    refine ⟨fun _ _ _ hphase => (nomatch hphase), fun session' hphase huid hauth => ?_⟩
    obtain rfl := Option.some.inj hphase
    exact h session rfl huid hauth

theorem networkSigned_runTask {sessions : SessionWorld} {cm : ConnectionManager} {k : ℕ}
    {phase : TaskPhase} (hnetwork : sessions.handshakes.NetworkSigned prim) (event : TaskEvent) :
    (runTask prim self sessions cm k phase event).1.handshakes.NetworkSigned prim := by
  unfold runTask
  split
  next => exact SessionWorld.networkSigned_step hnetwork _
  next => exact SessionWorld.networkSigned_step hnetwork _
  all_goals exact hnetwork

/-- A task does not change the record of `uid`: there is one when it pins a key. -/
theorem SoundAt.lookup_runTask {sessions : SessionWorld} {cm : ConnectionManager} {k : ℕ}
    {c : Connection} (h : SoundAt peer uid (cm.knownPeerKeys.lookup uid) c) (event : TaskEvent) :
    (runTask prim self sessions cm k c.phase event).2.1.knownPeerKeys.lookup uid =
      cm.knownPeerKeys.lookup uid := by
  unfold runTask
  split
  next => rfl
  next => rfl
  next session hphase =>
    refine ConnectionManager.lookup_pinPeer fun huid hauth => ?_
    exact (h.authenticated session (by rw [hphase, TaskPhase.session]) huid hauth).1
  next => rfl
  next => rw [ConnectionManager.knownPeerKeys_removeConnection]
  next => rfl

/-- The step of a task keeps its connection sound. -/
theorem Inv.soundAt_runTask (h : Inv prim peer uid w) (hsym : prim.SymbolicSignatures)
    (hpeer : peer ∈ honest) {k : ℕ} {c : Connection} (hc : w.connections.lookup k = some c)
    {event : TaskEvent} (hpermitted : w.Permitted prim honest (.task k event))
    (hok : w.Undisturbed prim peer uid (.task k event)) :
    SoundAt peer uid (w.manager.knownPeerKeys.lookup uid)
      { c with phase := (runTask prim self w.sessions w.manager k c.phase event).2.2 } := by
  have hsound := h.connections k c hc
  have hkeep {phase : TaskPhase} (hdialled : ∀ uid' ephSecret nonce,
      phase = .dialled uid' ephSecret nonce → phase = c.phase)
      (hsession : phase.session = c.phase.session) :
      SoundAt peer uid (w.manager.knownPeerKeys.lookup uid) { c with phase } :=
    hsound.congr id hdialled hsession
  unfold runTask
  split
  next selfUid ephSecret chal hphase =>
    refine .ofResult fun session hsession huid hauth => ?_
    obtain ⟨hsome, keyHex, ephHex, nonce, sig, rfl, hmade⟩ :=
      h.challenge hsym hpeer hpermitted hsession huid hauth
    refine ⟨hsome, ?_⟩
    by_contra hopener
    exact hok c hc hopener rfl hsome hmade
  next uid' ephSecret nonce resp hphase =>
    refine .ofResult fun session hsession huid _ => ?_
    -- the peer is the one that was dialled, which is not `uid`
    exact absurd ((connectToPeerResult_eq_ok.mp hsession).2.symm.trans huid)
      (hsound.dialled _ _ _ hphase)
  next session hphase =>
    exact hkeep (fun _ _ _ h => nomatch h) (by rw [hphase]; rfl)
  next session hphase =>
    exact hkeep (fun _ _ _ h => nomatch h) (by rw [hphase]; rfl)
  next session connId hphase =>
    exact hkeep (fun _ _ _ h => nomatch h) (by rw [hphase])
  next => exact hkeep (fun _ _ _ _ => rfl) rfl

theorem inv_init : Inv prim peer uid init := by
  refine ⟨fun _ hm => absurd hm List.not_mem_nil, fun _ hkey => ?_, fun _ _ hc => ?_, owned_init⟩
  · cases hkey
  · cases hc

/-- A connection that is added, or changed, is the only one to look at. -/
theorem Inv.soundAt_insert (h : Inv prim peer uid w) {k : ℕ} {c : Connection}
    (hc : SoundAt peer uid (w.manager.knownPeerKeys.lookup uid) c) (k' : ℕ) (c' : Connection)
    (hc' : (w.connections.insert k c).lookup k' = some c') :
    SoundAt peer uid (w.manager.knownPeerKeys.lookup uid) c' := by
  rw [ToMathlib.HashMap.lookup_insert_ite] at hc'
  split at hc'
  next =>
    obtain rfl := Option.some.inj hc'
    exact hc
  next => exact h.connections k' c' hc'

theorem Inv.register (h : Inv prim peer uid w) {uid' publicKey : String}
    (hok : w.Undisturbed prim peer uid (.register uid' publicKey)) :
    Inv prim peer uid (w.step prim self (.register uid' publicKey)) := by
  have hlookup : (w.step prim self (.register uid' publicKey)).manager.knownPeerKeys.lookup uid =
      if uid = uid' then some publicKey else w.manager.knownPeerKeys.lookup uid :=
    ToMathlib.HashMap.lookup_insert_ite ..
  refine ⟨h.network, fun keyHex hkey => ?_, fun k c hc => ?_, h.owned.step _⟩
  · rw [hlookup] at hkey
    split at hkey
    next huid =>
      obtain rfl := Option.some.inj hkey
      exact hok huid.symm
    next => exact h.keys keyHex hkey
  -- a key on record may be replaced, but it is not taken away
  · refine (h.connections k c hc).congr (fun hsome => ?_) (fun _ _ _ _ => rfl) rfl
    rw [hlookup]
    split
    · rfl
    · exact hsome

theorem Inv.task (h : Inv prim peer uid w) (hsym : prim.SymbolicSignatures) (hpeer : peer ∈ honest)
    {k : ℕ} {event : TaskEvent} (hpermitted : w.Permitted prim honest (.task k event))
    (hok : w.Undisturbed prim peer uid (.task k event)) :
    Inv prim peer uid (w.step prim self (.task k event)) := by
  have howned : (w.step prim self (.task k event)).Owned := h.owned.step _
  cases hc : w.connections.lookup k with
  | none =>
    rw [step, hc]
    exact h
  | some c =>
    rw [step_task hc] at howned ⊢
    have hlookup : (runTask prim self w.sessions w.manager k c.phase event).2.1.knownPeerKeys.lookup
        uid = w.manager.knownPeerKeys.lookup uid :=
      (h.connections k c hc).lookup_runTask event
    refine ⟨networkSigned_runTask h.network event, fun keyHex hkey => ?_, fun k' c' hc' => ?_,
      howned⟩
    · rw [hlookup] at hkey
      exact h.keys keyHex hkey
    · rw [hlookup]
      exact h.soundAt_insert (h.soundAt_runTask hsym hpeer hc hpermitted hok) k' c' hc'

theorem Inv.step (h : Inv prim peer uid w) (hsym : prim.SymbolicSignatures)
    (hpeer : peer ∈ honest) {event : ManagerEvent} (hpermitted : w.Permitted prim honest event)
    (hok : w.Undisturbed prim peer uid event) : Inv prim peer uid (w.step prim self event) := by
  have howned : (w.step prim self event).Owned := h.owned.step event
  cases event with
  | node event =>
    exact ⟨SessionWorld.networkSigned_step h.network event, h.keys, h.connections, howned⟩
  | register uid' publicKey => exact h.register hok
  | accept k opener =>
    rw [ManagerWorld.step] at howned ⊢
    split at howned
    next => exact h
    next =>
      refine ⟨h.network, h.keys, h.soundAt_insert ?_, howned⟩
      -- a new task has no session yet
      refine .of_session_eq_none (fun _ _ _ hphase => ?_) rfl
      cases hphase
  | dial k uid' selfUid ephSecret nonce =>
    rw [ManagerWorld.step] at howned ⊢
    split at howned
    next => exact h
    next =>
      refine ⟨SessionWorld.networkSigned_step h.network _, h.keys, h.soundAt_insert ?_, howned⟩
      refine .of_session_eq_none (fun uid'' _ _ hphase => ?_) rfl
      obtain ⟨rfl, -, -⟩ := TaskPhase.dialled.inj hphase
      exact hok
  | task k event => exact h.task hsym hpeer hpermitted hok

theorem Reachable.inv (hreach : w.Reachable prim honest self (Undisturbed prim peer uid))
    (hsym : prim.SymbolicSignatures) (hpeer : peer ∈ honest) : Inv prim peer uid w := by
  induction hreach with
  | init => exact inv_init
  | step event _ hpermitted hok ih => exact ih.step hsym hpeer hpermitted hok

/-- While an authenticated connection of the peer is in the table, there is a key on record. -/
theorem Inv.isSome_of_authenticatedBy (h : Inv prim peer uid w) {writer : PeerWriter}
    (hwriter : w.manager.activeConnections.lookup uid = some writer)
    (hlive : w.AuthenticatedBy prim peer writer) :
    (w.manager.knownPeerKeys.lookup uid).isSome := by
  obtain ⟨session, hc, hauth, -⟩ := hlive
  obtain ⟨c, session', hc', hphase, huid⟩ := h.owned uid writer hwriter
  rw [hc] at hc'
  obtain rfl := Option.some.inj hc'
  obtain ⟨rfl, -⟩ := TaskPhase.entered.inj hphase
  exact ((h.connections _ _ hc).authenticated session rfl huid hauth).1

/-- No displacement, as long as the steps leave the uid to the peer: the only key that is put on
record for it is that of the peer, the node does not itself connect to it, no challenge with a
signature of the peer is received under it on a connection of another party once the key is on
record, and no session of another party that was accepted before is entered after. In every run of
such steps, the entry of an authenticated connection of the peer is never replaced by that of a
connection that the peer has not opened. -/
theorem not_displaces (prim : Primitives) (honest : List Bytes32) (self peer : Bytes32)
    (uid : String) (hsym : prim.SymbolicSignatures) (hpeer : peer ∈ honest) (w : ManagerWorld)
    (hreach : w.Reachable prim honest self (Undisturbed prim peer uid)) (event : ManagerEvent)
    (hok : w.Undisturbed prim peer uid event) :
    ¬ Displaces prim peer uid w (w.step prim self event) := by
  have hinv : Inv prim peer uid w := hreach.inv hsym hpeer
  rintro ⟨writer, writer', c', hwriter, hlive, hwriter', hc', hopener⟩
  rcases lookup_active_step hwriter' with hold | ⟨c, session, rfl, hc, hphase, huid, -⟩
  -- the entry is the same, and connections keep their opener
  · rw [hwriter] at hold
    obtain rfl := Option.some.inj hold
    obtain ⟨_, hlive, -⟩ := hlive
    obtain ⟨phase, hstays, -⟩ := lookup_connections_step hlive event
    rw [hstays] at hc'
    obtain rfl := Option.some.inj hc'
    exact hopener rfl
  -- the new entry is that of a session that is not authenticated, and a key is on record
  · obtain ⟨phase, hstays, -⟩ := lookup_connections_step hc (.task writer'.connection .enter)
    rw [hstays] at hc'
    obtain rfl := Option.some.inj hc'
    have hauth : session.peerAuthenticated = false := by
      by_contra htrue
      have hsession : c.phase.session = some session := by rw [hphase, TaskPhase.session]
      exact hopener ((hinv.connections _ c hc).authenticated session hsession huid
        (Bool.of_not_eq_false htrue)).2
    have hnone := hok c session hc hopener hphase huid hauth
    have hsome := hinv.isSome_of_authenticatedBy hwriter hlive
    rw [hnone] at hsome
    cases hsome

open HandshakeWorld (symbolicPrimitives symbolicSignatures_symbolicPrimitives aliceKey bobKey
  bobChallenge)

/-- The steps of a connection up to its entry. -/
def connectionEvents (k : ℕ) (opener : Option Bytes32) (ephSecret : Bytes32) (chal : PeerMessage) :
    List ManagerEvent :=
  [.accept k opener, .task k (.challenge "alice" ephSecret chal), .task k .pin, .task k .enter]

/-- `alice` has the key of `bob` on record, and `bob` sends her a challenge. -/
def bobCalls : ManagerWorld :=
  [.register "bob" (hexEncode bobKey.toList),
    .node (.handshake (.connect bobKey "bob" (.replicate 32 5) (.replicate 32 6)))].foldl
      (step symbolicPrimitives aliceKey) init

/-- The connection of `bob` is in the table of `alice`. -/
def bobEnters : ManagerWorld :=
  (connectionEvents 0 (some bobKey) (.replicate 32 3) bobChallenge).foldl
    (step symbolicPrimitives aliceKey) bobCalls

/-- A connection with the same challenge has been accepted, and comes to its entry. -/
def replayPinned (opener : Option Bytes32) : ManagerWorld :=
  ((connectionEvents 1 opener (.replicate 32 4) bobChallenge).take 3).foldl
    (step symbolicPrimitives aliceKey) bobEnters

/-- It is entered. -/
def replayEntered (opener : Option Bytes32) : ManagerWorld :=
  (replayPinned opener).step symbolicPrimitives aliceKey (.task 1 .enter)

/-- The session that `alice` has accepted from `bob`. -/
def bobSession : SessionKeys :=
  ⟨.replicate 32 0, .replicate 32 0, "bob", hexEncode bobKey.toList, true⟩

/-- The tasks of connections that `peer` has opened do not disturb it. -/
theorem undisturbed_of_opener {k : ℕ}
    (hopener : (w.connections.lookup k).map Connection.opener = some (some peer))
    (event : TaskEvent) : w.Undisturbed prim peer uid (.task k event) := by
  have hpeer (c : Connection) (hc : w.connections.lookup k = some c) : c.opener = some peer := by
    rw [hc] at hopener
    exact Option.some.inj hopener
  cases event with
  | challenge selfUid ephSecret chal =>
    cases chal with
    | authChallenge uid' keyHex ephHex nonce sig =>
      exact fun c hc hforeign => absurd (hpeer c hc) hforeign
    | _ => trivial
  | enter => exact fun c _ hc hforeign => absurd (hpeer c hc) hforeign
  | _ => trivial

/-- The challenge of `bob` stays on the network. -/
theorem deliverable_bobChallenge (hsent : bobChallenge ∈ w.sessions.handshakes.network) :
    w.sessions.Deliverable symbolicPrimitives [aliceKey, bobKey] bobChallenge :=
  fun _ hsig => Or.inl ⟨bobChallenge, hsent, hsig⟩

theorem reachable_bobEnters :
    bobEnters.Reachable symbolicPrimitives [aliceKey, bobKey] aliceKey
      (Undisturbed symbolicPrimitives bobKey "bob") := by
  have hcalls : bobCalls.Reachable symbolicPrimitives [aliceKey, bobKey] aliceKey
      (Undisturbed symbolicPrimitives bobKey "bob") := by
    refine .step (.node _) (.step (.register _ _) .init trivial fun _ => ?_) ?_ trivial
    · decide +kernel
    · show bobKey ∈ [aliceKey, bobKey]
      decide
  simp only [bobEnters, connectionEvents, List.foldl_cons, List.foldl_nil]
  refine .step _ (.step _ (.step _ (.step _ hcalls trivial trivial) ?_ ?_) trivial ?_) trivial ?_
  · exact deliverable_bobChallenge List.mem_cons_self
  · exact undisturbed_of_opener rfl _
  · exact undisturbed_of_opener rfl _
  · exact undisturbed_of_opener rfl _

/-- A second connection of `bob` replaces the entry of the first, and displaces nothing. -/
theorem not_displaces_bob :
    (replayEntered (some bobKey)).manager.activeConnections.lookup "bob" = some ⟨1, 2⟩ ∧
      ¬ Displaces symbolicPrimitives bobKey "bob" (replayPinned (some bobKey))
        (replayEntered (some bobKey)) := by
  refine ⟨by decide +kernel, not_displaces symbolicPrimitives [aliceKey, bobKey] aliceKey bobKey
    "bob" symbolicSignatures_symbolicPrimitives (by decide) _ ?_ _ (undisturbed_of_opener rfl _)⟩
  simp only [replayPinned, connectionEvents, List.take_succ_cons, List.take_zero, List.foldl_cons,
    List.foldl_nil]
  refine .step _ (.step _ (.step _ reachable_bobEnters trivial trivial) ?_ ?_) trivial ?_
  · exact deliverable_bobChallenge (by decide +kernel)
  · exact undisturbed_of_opener rfl _
  · exact undisturbed_of_opener rfl _

/-- The conditions on the steps of a run may be weakened. -/
theorem Reachable.mono {ok ok' : ManagerWorld → ManagerEvent → Prop}
    (hreach : w.Reachable prim honest self ok) (h : ∀ w event, ok w event → ok' w event) :
    w.Reachable prim honest self ok' := by
  induction hreach with
  | init => exact .init
  | step event _ hpermitted hok ih => exact .step event ih hpermitted (h _ event hok)

/-- Somebody replays the challenge of `bob`, and takes over his entry. -/
theorem not_displacement_free :
    ¬ ∀ (prim : Primitives) (honest : List Bytes32), prim.SymbolicSignatures →
      ∀ self ∈ honest, ∀ peer ∈ honest, ∀ (uid : String) (w : ManagerWorld) (event : ManagerEvent),
        w.Reachable prim honest self (fun _ _ => True) → w.Permitted prim honest event →
          ¬ Displaces prim peer uid w (w.step prim self event) := by
  intro hclaim
  have hreach : (replayPinned none).Reachable symbolicPrimitives [aliceKey, bobKey] aliceKey
      (fun _ _ => True) := by
    simp only [replayPinned, connectionEvents, List.take_succ_cons, List.take_zero,
      List.foldl_cons, List.foldl_nil]
    have hbob : bobEnters.Reachable symbolicPrimitives [aliceKey, bobKey] aliceKey
        (fun _ _ => True) := reachable_bobEnters.mono fun _ _ _ => trivial
    refine .step _ (.step _ (.step _ hbob trivial trivial) ?_ trivial) trivial trivial
    exact deliverable_bobChallenge (by decide +kernel)
  refine hclaim symbolicPrimitives [aliceKey, bobKey] symbolicSignatures_symbolicPrimitives aliceKey
    (by decide) bobKey (by decide) "bob" (replayPinned none) (.task 1 .enter) hreach trivial ?_
  show Displaces symbolicPrimitives bobKey "bob" (replayPinned none) (replayEntered none)
  refine ⟨⟨0, 1⟩, ⟨1, 2⟩, ⟨none, .entered bobSession 2⟩, ?_, ⟨bobSession, ?_, rfl, ?_⟩, ?_, ?_, ?_⟩
  all_goals decide +kernel

end ManagerWorld

end ChronoShift
