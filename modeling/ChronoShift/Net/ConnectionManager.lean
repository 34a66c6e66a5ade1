import ChronoShift.Net.KeyAgreement

/-!
# The connection manager

The tables of `net/connection_manager.rs`, and the tasks that share them. The task of a connection
runs a handshake, pins the key of a peer that it has authenticated, enters its writer in the table
of active connections, and removes the entry when its reader or its writer ends. A lock is held for
one such step at a time, so the steps of the tasks interleave in any order.

Of a peer, `register_peer` keeps the identity key here and not the addresses. A connection that is
refused over the cap, or that times out, is one whose task takes no more steps, and no lock is
poisoned. Frames after the handshake do not touch the tables.

* `ManagerWorld.lookup_active_step`: a step adds no entry but that of the task that it runs;
* `ManagerWorld.Owned.step`: an entry belongs to a task that has entered it.
-/

namespace ChronoShift

/-- The handle to the writer of a connection. -/
structure PeerWriter where
  /-- The connection whose task empties the queue. -/
  connection : ℕ
  connId : ℕ
  deriving DecidableEq

/-- The tables that tasks share, and the counter of connection ids. -/
structure ConnectionManager where
  activeConnections : HashMap String PeerWriter
  knownPeerKeys : HashMap String String
  nextConnId : ℕ

namespace ConnectionManager

/-- A new connection manager. -/
def new : ConnectionManager := ⟨∅, ∅, 1⟩

/-- Put the key of a peer on record, in place of an earlier one. -/
def registerPeer (cm : ConnectionManager) (uid publicKey : String) : ConnectionManager :=
  { cm with knownPeerKeys := cm.knownPeerKeys.insert uid publicKey }

/-- Remove an entry that still belongs to the connection id. -/
def removeConnection (cm : ConnectionManager) (uid : String) (connId : ℕ) : ConnectionManager :=
  let stale := ((cm.activeConnections.lookup uid).map (·.connId == connId)).getD false
  if stale then { cm with activeConnections := cm.activeConnections.erase uid } else cm

/-- Pin the key of an authenticated peer, unless there is one on record. -/
def pinPeer (cm : ConnectionManager) (session : SessionKeys) : ConnectionManager :=
  if session.peerAuthenticated then
    match cm.knownPeerKeys.lookup session.peerUid with
    | some _ => cm
    | none => cm.registerPeer session.peerUid session.peerPublicHex
  else cm

/-- Enter a new writer, in place of an earlier one of the same peer. -/
def insertWriter (cm : ConnectionManager) (uid : String) (connection : ℕ) : ConnectionManager :=
  { cm with
    activeConnections := cm.activeConnections.insert uid ⟨connection, cm.nextConnId⟩
    nextConnId := cm.nextConnId + 1 }

variable {cm : ConnectionManager} {uid : String}

@[simp]
theorem knownPeerKeys_removeConnection (uid : String) (connId : ℕ) :
    (cm.removeConnection uid connId).knownPeerKeys = cm.knownPeerKeys := by
  rw [removeConnection]
  split <;> rfl

@[simp]
theorem activeConnections_pinPeer (session : SessionKeys) :
    (cm.pinPeer session).activeConnections = cm.activeConnections := by
  rw [pinPeer]
  split
  · split <;> rfl
  · rfl

/-- What is left after a removal was there before. -/
theorem lookup_of_lookup_removeConnection {uid' : String} {connId : ℕ} {writer : PeerWriter}
    (h : (cm.removeConnection uid' connId).activeConnections.lookup uid = some writer) :
    cm.activeConnections.lookup uid = some writer := by
  rw [removeConnection] at h
  split at h
  · rw [ToMathlib.HashMap.lookup_erase_ite] at h
    split at h
    · cases h
    · exact h
  · exact h

/-- The record of a peer changes only when it is pinned for the first time. -/
theorem lookup_pinPeer {session : SessionKeys}
    (h : session.peerUid = uid → session.peerAuthenticated = true →
      (cm.knownPeerKeys.lookup uid).isSome) :
    (cm.pinPeer session).knownPeerKeys.lookup uid = cm.knownPeerKeys.lookup uid := by
  rw [pinPeer]
  split
  next hauth =>
    split
    next => rfl
    next hnone =>
      rw [registerPeer, ToMathlib.HashMap.lookup_insert_ite, if_neg]
      rintro rfl
      have hsome := h rfl hauth
      rw [hnone] at hsome
      cases hsome
  next => rfl

end ConnectionManager

/-- How far the task of a connection has come. -/
inductive TaskPhase where
  /-- An inbound connection waits for its challenge. -/
  | accepted
  /-- An outbound connection to `uid` waits for its response. -/
  | dialled (uid : String) (ephSecret nonce : Bytes32)
  | agreed (session : SessionKeys)
  | pinned (session : SessionKeys)
  /-- The reader and the writer run, or have run. -/
  | entered (session : SessionKeys) (connId : ℕ)
  /-- The handshake has failed. -/
  | failed
  deriving DecidableEq

/-- The keys that the task holds. -/
def TaskPhase.session : TaskPhase → Option SessionKeys
  | .agreed session => some session
  | .pinned session => some session
  | .entered session _ => some session
  | _ => none

/-- A connection of the node. -/
structure Connection where
  /-- The signing key of the honest node that has opened the connection, if it was one. -/
  opener : Option Bytes32
  phase : TaskPhase
  deriving DecidableEq

/-- A step of the task of a connection. -/
inductive TaskEvent where
  /-- Receive a challenge; our own uid may have changed since the last one. -/
  | challenge (uid : String) (ephSecret : Bytes32) (chal : PeerMessage)
  | response (resp : PeerMessage)
  | pin
  | enter
  /-- The reader or the writer ends. -/
  | close

/-- The phase after a handshake. -/
def TaskPhase.ofResult : Except HandshakeError SessionKeys → TaskPhase
  | .ok session => .agreed session
  | .error _ => .failed

/-- The outcome of an outbound connection: the peer has to be the one that was asked for. -/
def connectToPeerResult (uid : String) (result : Except HandshakeError SessionKeys) :
    Except HandshakeError SessionKeys := do
  let session ← result
  let peerUid := session.peerUid
  if peerUid ≠ uid then
    .error ⟨.permissionDenied, s!"peer identified as {peerUid}, expected {uid}"⟩
  else return session

/-- The session of an outbound connection is that of its handshake, with the peer that was asked
for. -/
theorem connectToPeerResult_eq_ok {uid : String} {result : Except HandshakeError SessionKeys}
    {session : SessionKeys} :
    connectToPeerResult uid result = .ok session ↔
      result = .ok session ∧ session.peerUid = uid := by
  cases result with
  | error e => exact ⟨nofun, fun h => nomatch h.1⟩
  | ok session' =>
    change (if session'.peerUid ≠ uid then _ else Except.ok session') = _ ↔ _
    split
    next huid =>
      refine ⟨nofun, ?_⟩
      rintro ⟨hsession, hpeer⟩
      obtain rfl := Except.ok.inj hsession
      exact absurd hpeer huid
    next huid =>
      refine ⟨fun hsession => ⟨hsession, ?_⟩, And.left⟩
      obtain rfl := Except.ok.inj hsession
      exact not_not.mp huid

/-- Run one step of the task of connection `k`, at the node with the signing key `self`. A step that
the phase does not wait for does nothing. -/
def runTask (prim : Primitives) (self : Bytes32) (sessions : SessionWorld) (cm : ConnectionManager)
    (k : ℕ) : TaskPhase → TaskEvent → SessionWorld × ConnectionManager × TaskPhase
  | .accepted, .challenge uid ephSecret chal =>
    (sessions.step prim (.handshake (.accept self uid cm.knownPeerKeys ephSecret chal)), cm,
      .ofResult (inboundHandshake prim (.ofIdentity prim uid self) cm.knownPeerKeys ephSecret
        chal).2)
  | .dialled uid ephSecret nonce, .response resp =>
    (sessions.step prim (.handshake (.finish ⟨self, ephSecret, nonce⟩ cm.knownPeerKeys resp)), cm,
      .ofResult (connectToPeerResult uid
        (outboundFinish prim cm.knownPeerKeys ephSecret nonce resp)))
  | .agreed session, .pin => (sessions, cm.pinPeer session, .pinned session)
  | .pinned session, .enter =>
    (sessions, cm.insertWriter session.peerUid k, .entered session cm.nextConnId)
  | .entered session connId, .close =>
    (sessions, cm.removeConnection session.peerUid connId, .entered session connId)
  | phase, _ => (sessions, cm, phase)

/-- The honest nodes, and the connections of one of them. -/
structure ManagerWorld where
  sessions : SessionWorld
  manager : ConnectionManager
  connections : HashMap ℕ Connection

/-- A step of an honest node, or of a task. -/
inductive ManagerEvent where
  | node (event : SessionEvent)
  | register (uid publicKey : String)
  /-- The listener accepts a connection, and spawns its task. -/
  | accept (k : ℕ) (opener : Option Bytes32)
  /-- `connect_to_peer`, up to the challenge: `uid` is the peer's, `selfUid` is our own. -/
  | dial (k : ℕ) (uid selfUid : String) (ephSecret nonce : Bytes32)
  | task (k : ℕ) (event : TaskEvent)

namespace ManagerWorld

/-- Nothing has happened yet. -/
def init : ManagerWorld := ⟨.init, .new, ∅⟩

/-- Carry out a step. A new connection has a new number. -/
def step (prim : Primitives) (self : Bytes32) (w : ManagerWorld) : ManagerEvent → ManagerWorld
  | .node event => { w with sessions := w.sessions.step prim event }
  | .register uid publicKey => { w with manager := w.manager.registerPeer uid publicKey }
  | .accept k opener =>
    match w.connections.lookup k with
    | some _ => w
    | none => { w with connections := w.connections.insert k ⟨opener, .accepted⟩ }
  | .dial k uid selfUid ephSecret nonce =>
    match w.connections.lookup k with
    | some _ => w
    | none =>
      { w with
        sessions := w.sessions.step prim (.handshake (.connect self selfUid ephSecret nonce))
        connections := w.connections.insert k ⟨some self, .dialled uid ephSecret nonce⟩ }
  | .task k event =>
    match w.connections.lookup k with
    | none => w
    | some c =>
      let (sessions, manager, phase) := runTask prim self w.sessions w.manager k c.phase event
      ⟨sessions, manager, w.connections.insert k { c with phase }⟩

/-- Honest nodes take steps, and the adversary delivers the messages. -/
def Permitted (prim : Primitives) (honest : List Bytes32) (w : ManagerWorld) : ManagerEvent → Prop
  | .node event => w.sessions.Permitted prim honest event
  | .task _ (.challenge _ _ chal) => w.sessions.Deliverable prim honest chal
  | .task _ (.response resp) => w.sessions.Deliverable prim honest resp
  | _ => True

/-- The runs whose steps meet the condition `ok`, with an honest node. -/
inductive Reachable (prim : Primitives) (honest : List Bytes32) (self : Bytes32)
    (ok : ManagerWorld → ManagerEvent → Prop) : ManagerWorld → Prop
  | init : Reachable prim honest self ok init
  | step {w : ManagerWorld} (event : ManagerEvent) : Reachable prim honest self ok w →
      w.Permitted prim honest event → ok w event →
        Reachable prim honest self ok (w.step prim self event)

/-- Every entry belongs to a connection that was entered under the uid of its peer. -/
def Owned (w : ManagerWorld) : Prop :=
  ∀ uid writer, w.manager.activeConnections.lookup uid = some writer →
    ∃ c session, w.connections.lookup writer.connection = some c ∧
      c.phase = .entered session writer.connId ∧ session.peerUid = uid

variable {prim : Primitives} {honest : List Bytes32} {self : Bytes32} {w : ManagerWorld}

/-- A task that has entered its writer keeps its keys and its id. -/
theorem runTask_entered {sessions : SessionWorld} {cm : ConnectionManager} {k : ℕ}
    {session : SessionKeys} {connId : ℕ} (event : TaskEvent) :
    (runTask prim self sessions cm k (.entered session connId) event).2.2 =
      .entered session connId := by
  cases event <;> rfl

/-- A task adds no entry but its own. -/
theorem lookup_activeConnections_runTask {sessions : SessionWorld} {cm : ConnectionManager} {k : ℕ}
    {phase : TaskPhase} {event : TaskEvent} {uid : String} {writer : PeerWriter}
    (h : (runTask prim self sessions cm k phase event).2.1.activeConnections.lookup uid =
      some writer) :
    cm.activeConnections.lookup uid = some writer ∨
      ∃ session, phase = .pinned session ∧ event = .enter ∧ session.peerUid = uid ∧
        writer = ⟨k, cm.nextConnId⟩ := by
  unfold runTask at h
  split at h
  next => exact Or.inl h
  next => exact Or.inl h
  next =>
    rw [ConnectionManager.activeConnections_pinPeer] at h
    exact Or.inl h
  next session =>
    rw [ConnectionManager.insertWriter, ToMathlib.HashMap.lookup_insert_ite] at h
    split at h
    next huid => exact Or.inr ⟨session, rfl, rfl, huid.symm, (Option.some.inj h).symm⟩
    next => exact Or.inl h
  next => exact Or.inl (ConnectionManager.lookup_of_lookup_removeConnection h)
  next => exact Or.inl h

theorem step_task {k : ℕ} {c : Connection} (hc : w.connections.lookup k = some c)
    (event : TaskEvent) :
    w.step prim self (.task k event) =
      ⟨(runTask prim self w.sessions w.manager k c.phase event).1,
        (runTask prim self w.sessions w.manager k c.phase event).2.1,
        w.connections.insert k
          { c with phase := (runTask prim self w.sessions w.manager k c.phase event).2.2 }⟩ := by
  rw [step, hc]

/-- A connection stays, with its opener, and once it is entered it stays entered. -/
theorem lookup_connections_step {k : ℕ} {c : Connection} (h : w.connections.lookup k = some c)
    (event : ManagerEvent) :
    ∃ phase, (w.step prim self event).connections.lookup k = some { c with phase } ∧
      ∀ session connId, c.phase = .entered session connId → phase = c.phase := by
  -- a new connection has a number of its own
  have hstays {k' : ℕ} {c' : Connection} (hnone : w.connections.lookup k' = none) :
      (w.connections.insert k' c').lookup k = some c := by
    rw [ToMathlib.HashMap.lookup_insert_ite, if_neg, h]
    rintro rfl
    rw [h] at hnone
    cases hnone
  cases event with
  | node event => exact ⟨c.phase, h, fun _ _ _ => rfl⟩
  | register uid publicKey => exact ⟨c.phase, h, fun _ _ _ => rfl⟩
  | accept k' opener =>
    rw [step]
    split
    next => exact ⟨c.phase, h, fun _ _ _ => rfl⟩
    next hnone => exact ⟨c.phase, hstays hnone, fun _ _ _ => rfl⟩
  | dial k' uid selfUid ephSecret nonce =>
    rw [step]
    split
    next => exact ⟨c.phase, h, fun _ _ _ => rfl⟩
    next hnone => exact ⟨c.phase, hstays hnone, fun _ _ _ => rfl⟩
  | task k' event =>
    rw [step]
    split
    next => exact ⟨c.phase, h, fun _ _ _ => rfl⟩
    next c' hc' =>
      dsimp only
      rw [ToMathlib.HashMap.lookup_insert_ite]
      split
      next hk =>
        rw [hk, hc'] at h
        obtain rfl := Option.some.inj h
        -- the last phase of a task is the entered one
        refine ⟨_, rfl, fun session connId hphase => ?_⟩
        rw [hphase]
        exact runTask_entered event
      next => exact ⟨c.phase, h, fun _ _ _ => rfl⟩

/-- A step adds no entry but that of the task that it runs. -/
theorem lookup_active_step {event : ManagerEvent} {uid : String} {writer : PeerWriter}
    (h : (w.step prim self event).manager.activeConnections.lookup uid = some writer) :
    w.manager.activeConnections.lookup uid = some writer ∨
      ∃ c session, event = .task writer.connection .enter ∧
        w.connections.lookup writer.connection = some c ∧ c.phase = .pinned session ∧
        session.peerUid = uid ∧ writer.connId = w.manager.nextConnId := by
  cases event with
  | node event => exact Or.inl h
  | register uid' publicKey => exact Or.inl h
  | accept k opener =>
    rw [step] at h
    split at h <;> exact Or.inl h
  | dial k uid' selfUid ephSecret nonce =>
    rw [step] at h
    split at h <;> exact Or.inl h
  | task k event =>
    rw [step] at h
    split at h
    next => exact Or.inl h
    next c hc =>
      rcases lookup_activeConnections_runTask h with hold | ⟨session, hphase, rfl, huid, rfl⟩
      · exact Or.inl hold
      · exact Or.inr ⟨c, session, rfl, hc, hphase, huid, rfl⟩

theorem owned_init : init.Owned := by
  intro uid writer h
  cases h

/-- An entry belongs to a task that has entered it. -/
theorem Owned.step (h : w.Owned) (event : ManagerEvent) : (w.step prim self event).Owned := by
  intro uid writer hwriter
  rcases lookup_active_step hwriter with hold | ⟨c, session, rfl, hc, hphase, huid, hconnId⟩
  · obtain ⟨c, session, hc, hphase, huid⟩ := h uid writer hold
    obtain ⟨phase, hc', hentered⟩ := lookup_connections_step hc event
    exact ⟨{ c with phase }, session, hc', (hentered _ _ hphase).trans hphase, huid⟩
  · refine ⟨⟨c.opener, .entered session w.manager.nextConnId⟩, session, ?_, ?_, huid⟩
    · rw [step_task hc, hphase, ToMathlib.HashMap.lookup_insert_ite, if_pos rfl]
      rfl
    · rw [hconnId]

end ManagerWorld

end ChronoShift
