import ChronoShift.IdentityFile
import ChronoShift.IncomingPump
import ChronoShift.Net.FirstContact

/-!
# The daemon

The parts of the node as `main.rs` puts them together. Two calls that the parts provide for are
never made there. No peer is registered, so that there is no key on record to authenticate a peer
under; and `AppState::new_with_port` asks for an identity without a uid, which no peer accepts.

* `ManagerWorld.pump_inert`: whatever its peers send, the round engine and the relay path of a
  daemon are not reached;
* `ManagerWorld.fresh_daemons_apart`: daemons that have generated their identities never connect.
-/

namespace ChronoShift

open ToMathlib

namespace ManagerWorld

variable {prim : Primitives} {honest : List Bytes32} {self : Bytes32} {w : ManagerWorld}

/-! ## No peer is registered -/

/-- The steps that a daemon takes: `register_peer` is not called. -/
def ByDaemon (_ : ManagerWorld) (event : ManagerEvent) : Prop :=
  ∀ uid publicKey, event ≠ .register uid publicKey

/-- No key is ever on record, and so nobody is authenticated. -/
theorem Reachable.unknown (h : w.Reachable prim honest self ByDaemon) :
    w.AuthenticatedKnown ∧ ∀ uid, w.manager.knownPeerKeys.lookup uid = none := by
  induction h with
  | init => exact ⟨authenticatedKnown_of_connections rfl, fun uid => rfl⟩
  | step event _ _ hok ih =>
    obtain ⟨hauth, hnone⟩ := ih
    refine ⟨(hauth.step prim self (hok "")).1, fun uid => ?_⟩
    exact (hauth.step prim self (hok uid)).2.trans (hnone uid)

/-- No session of the daemon is with a peer whose key it knows. -/
theorem Reachable.peerAuthenticated_eq_false (h : w.Reachable prim honest self ByDaemon) {k : ℕ}
    {c : Connection} (hc : w.connections.lookup k = some c) {session : SessionKeys}
    (hsession : c.phase.session = some session) : session.peerAuthenticated = false := by
  obtain ⟨hauth, hnone⟩ := h.unknown
  refine Bool.eq_false_iff.mpr fun htrue => ?_
  have hknown := hauth k c hc session hsession htrue
  rw [hnone] at hknown
  cases hknown

/-- The message has been put in the inbound queue by the reader of one of the connections, from
whatever has arrived on it. -/
def Queued (aead : Aead) (fromJson : String → Option PeerMessage) (w : ManagerWorld)
    (msg : PeerMessage) : Prop :=
  ∃ k c session addr stream turns, w.connections.lookup k = some c ∧
    c.phase.session = some session ∧
    (session.peerUid, msg) ∈ connectionReader aead fromJson
      ⟨addr, session.recvKey, session.peerUid, session.peerAuthenticated⟩ 0 stream turns

variable {aead : Aead} {fromJson : String → Option PeerMessage}

/-- Only keepalives are put in the queue. -/
theorem Reachable.queued (h : w.Reachable prim honest self ByDaemon) {msg : PeerMessage}
    (hmsg : w.Queued aead fromJson msg) : ∃ ts, msg = .ping ts ∨ msg = .pong ts := by
  obtain ⟨k, c, session, addr, stream, turns, hc, hsession, hentry⟩ := hmsg
  rw [connectionReader_eq_filterMap] at hentry
  obtain ⟨received, -, hforward⟩ := List.mem_filterMap.mp hentry
  obtain ⟨heq, -, hallowed, -⟩ := forward_eq_some_iff.mp hforward
  obtain rfl : msg = received := congrArg Prod.snd heq
  refine allowedUnauthenticated_iff.mp (hallowed.resolve_left ?_)
  rw [h.peerAuthenticated_eq_false hc hsession]
  exact Bool.false_ne_true

/-- A keepalive leaves the pump as it is. -/
theorem handle_keepalive (s : PumpState) {m : PumpMessage}
    (hm : ∃ ts, m.msg = .ping ts ∨ m.msg = .pong ts) : s.handle prim m = .running s := by
  obtain ⟨env, msg⟩ := m
  obtain ⟨ts, rfl | rfl⟩ := hm <;>
    cases hkey : env.identity.signingKey <;>
      simp [PumpState.handle, PumpState.roundCall, isRelay, hkey, RoundEngine.handleIncoming]

/-- In every run of a daemon, whatever its peers and an attacker on the network do: whatever arrives
on its connections, the pump leaves the round engine and the relay verifier as they were, emits no
event and sends nothing. -/
theorem pump_inert (h : w.Reachable prim honest self ByDaemon) (s : PumpState)
    (batches : List (List PumpMessage))
    (hqueue : ∀ batch ∈ batches, ∀ m ∈ batch, w.Queued aead fromJson m.msg) :
    s.incomingPump prim batches = .running s := by
  rw [PumpState.incomingPump_eq_pump]
  have hqueue : ∀ m ∈ batches.flatten, w.Queued aead fromJson m.msg := by
    intro m hm
    obtain ⟨batch, hbatch, hm⟩ := List.mem_flatten.mp hm
    exact hqueue batch hbatch m hm
  generalize batches.flatten = messages at hqueue
  induction messages with
  | nil => rfl
  | cons m messages ih =>
    obtain ⟨hm, hqueue⟩ := List.forall_mem_cons.mp hqueue
    rw [PumpState.pump, handle_keepalive s (h.queued hm)]
    exact ih hqueue

open HandshakeWorld (symbolicPrimitives aliceKey bobKey bobChallenge)

/-- `bob` connects to `alice`, who does not know him. -/
def strangerEnters : ManagerWorld :=
  (connectionEvents 0 (some bobKey) (.replicate 32 3) bobChallenge).foldl
    (step symbolicPrimitives aliceKey) (init.step symbolicPrimitives aliceKey
      (.node (.handshake (.connect bobKey "bob" (.replicate 32 5) (.replicate 32 6)))))

/-- A stranger can enter a connection of the daemon. -/
theorem reachable_strangerEnters :
    strangerEnters.Reachable symbolicPrimitives [aliceKey, bobKey] aliceKey ByDaemon := by
  simp only [strangerEnters, connectionEvents, List.foldl_cons, List.foldl_nil]
  refine .step _ (.step _ (.step _ (.step _ (.step _ .init ?_ ?_) trivial ?_) ?_ ?_) trivial ?_)
    trivial ?_
  · show bobKey ∈ [aliceKey, bobKey]
    decide
  rotate_left 2
  · exact deliverable_bobChallenge List.mem_cons_self
  all_goals exact fun _ _ h => by cases h

/-- The text of a keepalive, and its decoder. -/
def pingText : String := "\x7b\"type\":\"ping\",\"ts\":7\x7d"

def pingFromJson (text : String) : Option PeerMessage :=
  if text = pingText then some (.ping 7) else none

/-- The session that `alice` has accepted from `bob`, without authentication. -/
def strangerCtx : ReaderCtx := ⟨"b:1", .replicate 32 0, "bob", false⟩

/-- The keepalive of `bob` is put in the queue. -/
theorem queued_ping : strangerEnters.Queued sampleAead pingFromJson (.ping 7) := by
  have hrecv : recvSecureFrame sampleAead strangerCtx.recvKey 0
      (sampleFrame 0 0 (asBytes pingText)) = (.ok (asBytes pingText), 1, []) := by
    decide +kernel
  refine ⟨0, _, _, "b:1", sampleFrame 0 0 (asBytes pingText), [.read .ok], rfl, rfl, ?_⟩
  show ("bob", .ping 7) ∈ connectionReader sampleAead pingFromJson strangerCtx 0
    (sampleFrame 0 0 (asBytes pingText)) [.read .ok]
  rw [connectionReader, hrecv]
  simp only [readPayload, fromUtf8_asBytes, pingFromJson]
  decide +kernel

/-- A ping is dropped. -/
theorem pump_inert_ping :
    (PumpState.new "alice").incomingPump symbolicPrimitives [[⟨PumpState.sampleEnv, .ping 7⟩]] =
      .running (PumpState.new "alice") := by
  refine @pump_inert _ _ _ _ sampleAead pingFromJson reachable_strangerEnters _ _
    fun batch hbatch m hm => ?_
  obtain rfl := List.mem_singleton.mp hbatch
  obtain rfl := List.mem_singleton.mp hm
  exact queued_ping

end ManagerWorld

/-! ## Identities without a uid -/

/-- The uid of a process run on a data directory that had no identity to begin with. -/
def GeneratedUid (prim : Primitives) (uid : String) : Prop :=
  ∃ (serde : IdentitySerde) (file : Option Bytes) (runs : List ProcessRun),
    serde.read file = none ∧
    (∀ id ∈ ProcessRun.identities prim serde file runs, serde.Writes id) ∧
    ∃ id ∈ ProcessRun.identities prim serde file runs, id.uid = uid

/-- The uid of an identity that is generated and never named. -/
theorem GeneratedUid.eq_empty {prim : Primitives} {uid : String} (h : GeneratedUid prim uid) :
    uid = "" := by
  obtain ⟨serde, file, runs, hfile, hwrites, id, hid, rfl⟩ := h
  obtain ⟨keyBytes, now, rfl⟩ := ProcessRun.anonymous_of_mem_identities hfile hwrites id hid
  rfl

/-- The uid of the sender of a handshake message. -/
def PeerMessage.handshakeUid : PeerMessage → Option String
  | .authChallenge fromUid _ _ _ _ => some fromUid
  | .authResponse fromUid _ _ _ => some fromUid
  | _ => none

/-- A handshake without a uid is refused. -/
theorem validateUid_empty : validateUid "" = false := rfl

/-- A challenge without a uid is refused. -/
theorem readChallenge_of_uid_empty {prim : Primitives} (knownKeys : HashMap String String)
    {chal : PeerMessage} (h : chal.handshakeUid = some "") :
    ∃ e, readChallenge prim knownKeys chal = .error e := by
  unfold readChallenge
  split
  next uid keyHex ephHex nonce sig =>
    obtain rfl : uid = "" := Option.some.inj h
    exact ⟨_, if_neg (by rw [validateUid_empty]; decide)⟩
  next => exact ⟨_, rfl⟩

/-- A response without a uid is refused. -/
theorem outboundFinish_of_uid_empty {prim : Primitives} (knownKeys : HashMap String String)
    (ephSecret nonce : Bytes32) {resp : PeerMessage} (h : resp.handshakeUid = some "") :
    ∃ e, outboundFinish prim knownKeys ephSecret nonce resp = .error e := by
  unfold outboundFinish
  split
  next uid keyHex ephHex sig =>
    obtain rfl : uid = "" := Option.some.inj h
    exact ⟨_, if_neg (by rw [validateUid_empty]; decide)⟩
  next => exact ⟨_, rfl⟩

namespace ManagerWorld

variable {prim : Primitives} {honest : List Bytes32} {self : Bytes32} {w : ManagerWorld}

/-- A step in a network whose nodes have generated their identities, and in which nobody else sends:
all uids are those of generated identities, and what is delivered has been sent by a node. -/
def ByGenerated (prim : Primitives) (w : ManagerWorld) : ManagerEvent → Prop
  | .node (.handshake (.connect _ uid _ _)) => GeneratedUid prim uid
  | .node (.handshake (.finish _ _ resp)) => resp ∈ w.sessions.handshakes.network
  | .node (.handshake (.accept _ uid _ _ chal)) =>
    GeneratedUid prim uid ∧ chal ∈ w.sessions.handshakes.network
  | .dial _ _ selfUid _ _ => GeneratedUid prim selfUid
  | .task _ (.challenge uid _ chal) =>
    GeneratedUid prim uid ∧ chal ∈ w.sessions.handshakes.network
  | .task _ (.response resp) => resp ∈ w.sessions.handshakes.network
  | _ => True

/-- All handshake messages are without a uid, and no handshake has got any further. -/
structure SessionsApart (w : SessionWorld) : Prop where
  network : ∀ m ∈ w.handshakes.network, m.handshakeUid = some ""
  inbound : w.inbound = []
  outbound : w.outbound = []

/-- A challenge of a daemon names no uid. -/
theorem SessionsApart.connect {w : SessionWorld} (h : SessionsApart w) (signingKey : Bytes32)
    {uid : String} (huid : GeneratedUid prim uid) (ephSecret nonce : Bytes32) :
    SessionsApart (w.step prim (.handshake (.connect signingKey uid ephSecret nonce))) := by
  refine ⟨List.forall_mem_cons.mpr ⟨?_, h.network⟩, h.inbound, h.outbound⟩
  exact congrArg some huid.eq_empty

/-- A response without a uid is refused. -/
theorem SessionsApart.finish {w : SessionWorld} (h : SessionsApart w) (handshake : OpenHandshake)
    (knownKeys : HashMap String String) {resp : PeerMessage}
    (hresp : resp ∈ w.handshakes.network) :
    SessionsApart (w.step prim (.handshake (.finish handshake knownKeys resp))) := by
  obtain ⟨e, he⟩ := @outboundFinish_of_uid_empty prim knownKeys handshake.ephSecret
    handshake.nonce _ (h.network resp hresp)
  refine ⟨h.network, h.inbound, ?_⟩
  rw [SessionWorld.step, HandshakeEvent.outboundRuns, he]
  exact h.outbound

/-- A challenge without a uid is refused. -/
theorem SessionsApart.accept {w : SessionWorld} (h : SessionsApart w) (signingKey : Bytes32)
    (uid : String) (knownKeys : HashMap String String) (ephSecret : Bytes32) {chal : PeerMessage}
    (hchal : chal ∈ w.handshakes.network) :
    SessionsApart (w.step prim (.handshake (.accept signingKey uid knownKeys ephSecret chal))) := by
  obtain ⟨e, he⟩ := @readChallenge_of_uid_empty prim knownKeys _ (h.network chal hchal)
  rw [SessionWorld.step, HandshakeWorld.step, HandshakeEvent.inboundRuns, he]
  exact ⟨h.network, h.inbound, h.outbound⟩

variable (prim self) in
/-- The task of a connection does not get past its handshake. -/
theorem SessionsApart.runTask {cm : ConnectionManager} {phase : TaskPhase}
    (h : SessionsApart w.sessions) (hphase : phase.session = none) (k : ℕ) {event : TaskEvent}
    (hevent : w.ByGenerated prim (.task k event)) :
    SessionsApart (runTask prim self w.sessions cm k phase event).1 ∧
      (ChronoShift.runTask prim self w.sessions cm k phase event).2.1.activeConnections =
        cm.activeConnections ∧
      (ChronoShift.runTask prim self w.sessions cm k phase event).2.2.session = none := by
  unfold ChronoShift.runTask
  split
  next uid ephSecret chal =>
    obtain ⟨-, hchal⟩ := hevent
    obtain ⟨e, he⟩ := @readChallenge_of_uid_empty prim cm.knownPeerKeys _ (h.network chal hchal)
    refine ⟨h.accept self uid _ _ hchal, rfl, ?_⟩
    rw [inboundHandshake, he]
    rfl
  next uid ephSecret nonce resp =>
    obtain ⟨e, he⟩ := @outboundFinish_of_uid_empty prim cm.knownPeerKeys ephSecret nonce _
      (h.network resp hevent)
    refine ⟨h.finish _ _ hevent, rfl, ?_⟩
    rw [he]
    rfl
  next => cases hphase
  next => cases hphase
  next => cases hphase
  next => exact ⟨h, rfl, hphase⟩

/-- No handshake has been completed, and no connection has been entered. -/
structure Apart (w : ManagerWorld) : Prop where
  sessions : SessionsApart w.sessions
  phase : ∀ k c, w.connections.lookup k = some c → c.phase.session = none
  active : w.manager.activeConnections = ∅

/-- A task that is still in its handshake takes the place of another one. -/
theorem Apart.insert (h : w.Apart) {k : ℕ} {c : Connection} (hc : c.phase.session = none) (k' : ℕ)
    (c' : Connection) (hc' : (w.connections.insert k c).lookup k' = some c') :
    c'.phase.session = none := by
  rw [HashMap.lookup_insert_ite] at hc'
  split at hc'
  next => exact Option.some.inj hc' ▸ hc
  next => exact h.phase k' c' hc'

/-- Nothing has happened yet. -/
theorem apart_init : init.Apart :=
  ⟨⟨List.forall_mem_nil _, rfl, rfl⟩, fun k c h => (by cases h), rfl⟩

/-- No step of daemons with generated identities gets a handshake any further. -/
theorem Apart.step (h : w.Apart) {event : ManagerEvent} (hevent : w.ByGenerated prim event) :
    (w.step prim self event).Apart := by
  -- only a task could complete a handshake; the other steps add challenges without a uid
  cases event with
  | node event =>
    refine ⟨?_, h.phase, h.active⟩
    match event with
    | .handshake (.connect signingKey uid ephSecret nonce) =>
      exact h.sessions.connect signingKey hevent ephSecret nonce
    | .handshake (.finish handshake knownKeys resp) =>
      exact h.sessions.finish handshake knownKeys hevent
    | .handshake (.accept signingKey uid knownKeys ephSecret chal) =>
      exact h.sessions.accept signingKey uid knownKeys ephSecret hevent.2
    | .sign signingKey text => exact ⟨h.sessions.network, h.sessions.inbound, h.sessions.outbound⟩
  | register uid publicKey => exact ⟨h.sessions, h.phase, h.active⟩
  | accept k opener =>
    rw [ManagerWorld.step]
    split
    next => exact h
    next => exact ⟨h.sessions, h.insert rfl, h.active⟩
  | dial k uid selfUid ephSecret nonce =>
    rw [ManagerWorld.step]
    split
    next => exact h
    next => exact ⟨h.sessions.connect self hevent ephSecret nonce, h.insert rfl, h.active⟩
  | task k event =>
    cases hc : w.connections.lookup k with
    | none =>
      rw [ManagerWorld.step, hc]
      exact h
    | some c =>
      rw [step_task hc]
      obtain ⟨hsessions, hactive, hphase⟩ :=
        @SessionsApart.runTask prim self w w.manager _ h.sessions (h.phase k c hc) k _ hevent
      exact ⟨hsessions, h.insert hphase, hactive.trans h.active⟩

/-- Nodes that have generated their identities never connect to each other: in every run of a
network of such nodes, in whatever order messages are delivered and lost, however often the nodes
are restarted and whatever crashes cut off, no challenge is answered, no initiator gets the keys of
a session, and no connection is entered. -/
theorem fresh_daemons_apart (h : w.Reachable prim honest self (ByGenerated prim)) :
    w.sessions.inbound = [] ∧ w.sessions.outbound = [] ∧
      ∀ uid, w.manager.isConnected uid = false := by
  have hapart : w.Apart := by
    induction h with
    | init => exact apart_init
    | step event _ _ hevent ih => exact ih.step hevent
  refine ⟨hapart.sessions.inbound, hapart.sessions.outbound, fun uid => ?_⟩
  rw [ConnectionManager.isConnected, hapart.active]
  rfl

open HandshakeWorld (symbolicPrimitives aliceKey bobKey)

/-- The first process run of a node, on an empty data directory. -/
def firstStart : ProcessRun := ⟨bobKey, 10, fun _ => none, none⟩

/-- The uid of a generated identity is empty under the symbolic primitives. -/
theorem generatedUid_empty : GeneratedUid symbolicPrimitives "" := by
  refine ⟨.ofList identityText [.generate symbolicPrimitives "" bobKey 10], none, [firstStart],
    rfl, ?_, .generate symbolicPrimitives "" bobKey 10, List.mem_singleton_self _, rfl⟩
  refine List.forall_mem_singleton.mpr (FileSerde.writes_ofList (List.mem_singleton_self _) ?_)
  exact List.forall_mem_singleton.mpr ⟨rfl, fun _ => rfl⟩

/-- Both nodes have started with empty data directories, and one connects to the other. -/
def freshEvents : List ManagerEvent :=
  [.node (.handshake (.connect bobKey "" (.replicate 32 5) (.replicate 32 6))), .accept 0 none,
    .task 0 (.challenge "" (.replicate 32 3) (outboundChallenge symbolicPrimitives
      (.ofIdentity symbolicPrimitives "" bobKey) (.replicate 32 5) (.replicate 32 6)))]

/-- The challenge is refused. -/
theorem fresh_daemons_apart_two :
    (freshEvents.foldl (step symbolicPrimitives aliceKey) init).manager.isConnected "" = false := by
  refine (@fresh_daemons_apart symbolicPrimitives [aliceKey, bobKey] aliceKey _ ?_).2.2 ""
  simp only [freshEvents, List.foldl_cons, List.foldl_nil]
  refine .step _ (.step _ (.step _ .init ?_ generatedUid_empty) trivial trivial) ?_
    ⟨generatedUid_empty, List.mem_cons_self⟩
  · show bobKey ∈ [aliceKey, bobKey]
    decide
  · exact fun sig hsig => Or.inl ⟨_, List.mem_cons_self, hsig⟩

end ManagerWorld

end ChronoShift
