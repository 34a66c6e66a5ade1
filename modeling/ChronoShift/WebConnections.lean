import ChronoShift.Web

/-!
# Connections to the web console

How `start_web_console` limits the requests that are handled at a time (`web.rs`). One thread
accepts connections and counts them in an atomic counter; a connection that it finds too many is
taken back and refused. Every other one gets a thread of its own, which takes it back when it ends,
in whatever way it ends. The threads run at their own pace: the counter is between two values while
a connection is on its way from the one thread to the other.

That a thread cannot be spawned is left out.

* `WebConsole.Counted`: what the counter says of the connections;
* `WebConsole.connections_counted`: the limit is exact, and no connection is lost.
-/

namespace ChronoShift

/-- `MAX_WEB_CONNS`. -/
def maxWebConns : ℕ := 64

/-- Where the accepting thread stands. -/
inductive AcceptPhase where
  | waiting
  /-- The connection is counted, and its thread is to be spawned. -/
  | spawning (conn : ℕ)
  /-- The connection is counted, and is too many. -/
  | refusing (conn : ℕ)
  deriving DecidableEq

/-- The connection that the accepting thread goes on with. -/
def AcceptPhase.conn : AcceptPhase → List ℕ
  | .waiting => []
  | .spawning conn => [conn]
  | .refusing conn => [conn]

/-- The connections of the console, numbered as they come in. -/
structure WebConsole where
  /-- The counter. -/
  active : UInt64
  phase : AcceptPhase
  /-- How many connections have come in. -/
  arrived : ℕ
  /-- The connections whose threads run. -/
  handlers : List ℕ
  /-- The connections whose threads have ended. -/
  finished : List ℕ
  /-- The connections that were answered with a 503. -/
  refused : List ℕ

/-- A step of one of the threads. -/
inductive WebStep where
  /-- A connection comes in: `fetch_add`, and the test of what it returns. -/
  | accept
  /-- The accepting thread goes on with it. -/
  | proceed
  /-- The thread of a connection ends, and its guard is dropped. -/
  | finish (conn : ℕ)
  deriving DecidableEq

namespace WebConsole

def new : WebConsole := ⟨0, .waiting, 0, [], [], []⟩

/-- A step that is not possible changes nothing. -/
def step (w : WebConsole) : WebStep → WebConsole
  | .accept =>
    match w.phase with
    | .waiting =>
      { w with
        active := w.active + 1
        arrived := w.arrived + 1
        phase := if maxWebConns ≤ w.active.toNat then .refusing w.arrived
          else .spawning w.arrived }
    | _ => w
  | .proceed =>
    match w.phase with
    | .waiting => w
    | .spawning conn => { w with phase := .waiting, handlers := w.handlers ++ [conn] }
    | .refusing conn =>
      { w with active := w.active - 1, phase := .waiting, refused := w.refused ++ [conn] }
  | .finish conn =>
    if conn ∈ w.handlers then
      { w with
        active := w.active - 1
        handlers := w.handlers.erase conn
        finished := w.finished ++ [conn] }
    else w

def run (steps : List WebStep) : WebConsole := steps.foldl step new

/-- What the counter says of the connections, and where they are. -/
structure Counted (w : WebConsole) : Prop where
  active_eq : w.active = .ofNat (w.handlers.length + w.phase.conn.length)
  limit : w.handlers.length ≤ maxWebConns
  spawning : ∀ conn, w.phase = .spawning conn → w.handlers.length < maxWebConns
  perm : (w.handlers ++ w.finished ++ w.refused ++ w.phase.conn).Perm (List.range w.arrived)

variable {w : WebConsole}

/-- No connection has come in yet. -/
theorem counted_new : Counted new :=
  ⟨rfl, Nat.zero_le _, fun _ h => (by cases h), List.Perm.refl _⟩

/-- The counter is tested after it has been advanced, against its value before. -/
theorem step_accept (h : w.phase = .waiting) : w.step .accept =
    { w with
      active := w.active + 1
      arrived := w.arrived + 1
      phase := if maxWebConns ≤ w.active.toNat then .refusing w.arrived
        else .spawning w.arrived } := by
  rw [step, h]

/-- A connection that is not too many gets its thread and stays counted. -/
theorem step_spawn {conn : ℕ} (h : w.phase = .spawning conn) : w.step .proceed =
    { w with phase := .waiting, handlers := w.handlers ++ [conn] } := by
  rw [step, h]

/-- A connection that is too many is taken back and answered with a 503. -/
theorem step_refuse {conn : ℕ} (h : w.phase = .refusing conn) : w.step .proceed =
    { w with active := w.active - 1, phase := .waiting, refused := w.refused ++ [conn] } := by
  rw [step, h]

/-- Taking back one of several counted connections does not wrap. -/
theorem ofNat_sub_one (n : ℕ) : UInt64.ofNat (n + 1) - 1 = .ofNat n := by
  rw [UInt64.ofNat_add]
  exact UInt64.add_sub_cancel _ _

/-- The counter is far from wrapping. -/
theorem Counted.toNat_active (h : w.Counted) :
    w.active.toNat = w.handlers.length + w.phase.conn.length := by
  have hlimit := h.limit
  have hconn : w.phase.conn.length ≤ 1 := by
    cases w.phase <;> exact Nat.le_of_ble_eq_true rfl
  rw [maxWebConns] at hlimit
  rw [h.active_eq]
  exact UInt64.toNat_ofNat_of_lt' (show _ < 18446744073709551616 by omega)

/-- A connection that comes in is counted, and waits with the accepting thread. -/
theorem Counted.accept (h : w.Counted) : (w.step .accept).Counted := by
  cases hphase : w.phase with
  | waiting =>
    have htoNat := h.toNat_active
    obtain ⟨hactive, hlimit, -, hperm⟩ := h
    rw [hphase, AcceptPhase.conn, List.length_nil, Nat.add_zero] at hactive htoNat
    rw [hphase, AcceptPhase.conn, List.append_nil] at hperm
    rw [step_accept hphase, htoNat]
    -- the new connection is on its way, whatever the test says
    have hconn : (if maxWebConns ≤ w.handlers.length then AcceptPhase.refusing w.arrived
        else .spawning w.arrived).conn = [w.arrived] := by
      split <;> rfl
    refine ⟨?_, hlimit, fun conn hspawning => ?_, ?_⟩
    · dsimp only
      rw [hconn, List.length_singleton, hactive, UInt64.ofNat_add]
      rfl
    -- it is to be spawned only if there is room
    · refine Nat.lt_of_not_le fun hmany => ?_
      dsimp only at hspawning hmany
      rw [if_pos hmany] at hspawning
      cases hspawning
    · dsimp only
      rw [hconn, List.range_succ]
      exact hperm.append_right _
  | spawning conn => rwa [step, hphase]
  | refusing conn => rwa [step, hphase]

/-- A spawned connection stays counted, and a refused one is taken back. -/
theorem Counted.proceed (h : w.Counted) : (w.step .proceed).Counted := by
  cases hphase : w.phase with
  | waiting => rwa [step, hphase]
  | spawning conn =>
    obtain ⟨hactive, -, hspawning, hperm⟩ := h
    rw [hphase, AcceptPhase.conn, List.length_singleton] at hactive
    rw [hphase, AcceptPhase.conn] at hperm
    rw [step_spawn hphase]
    refine ⟨?_, ?_, fun conn' h' => (by cases h'), ?_⟩
    · rw [hactive, List.length_append, List.length_singleton, AcceptPhase.conn, List.length_nil]
    · rw [List.length_append, List.length_singleton]
      exact hspawning conn hphase
    -- it moves from the accepting thread to the handlers
    · refine List.Perm.trans ?_ hperm
      simp only [AcceptPhase.conn, List.append_nil, List.append_assoc]
      refine List.Perm.append_left _ ?_
      rw [← List.append_assoc w.finished]
      exact List.perm_append_comm
  | refusing conn =>
    obtain ⟨hactive, hlimit, -, hperm⟩ := h
    rw [hphase, AcceptPhase.conn, List.length_singleton] at hactive
    rw [hphase, AcceptPhase.conn] at hperm
    rw [step_refuse hphase]
    refine ⟨?_, hlimit, fun conn' h' => (by cases h'), ?_⟩
    · dsimp only
      rw [AcceptPhase.conn, List.length_nil, Nat.add_zero, hactive, ofNat_sub_one]
    · rw [AcceptPhase.conn, List.append_nil]
      dsimp only
      rw [← List.append_assoc]
      exact hperm

/-- A thread that ends takes its connection back. -/
theorem Counted.finish (h : w.Counted) (conn : ℕ) : (w.step (.finish conn)).Counted := by
  rw [step]
  split
  next hconn =>
    obtain ⟨hactive, hlimit, hspawning, hperm⟩ := h
    have hlength := List.length_erase_of_mem hconn
    have hpos := List.length_pos_of_mem hconn
    have hle : (w.handlers.erase conn).length ≤ w.handlers.length := List.length_erase_le
    refine ⟨?_, hle.trans hlimit, fun conn' h' =>
      Nat.lt_of_le_of_lt hle (hspawning conn' h'), ?_⟩
    · dsimp only
      obtain ⟨n, hn⟩ := Nat.exists_eq_succ_of_ne_zero hpos.ne'
      rw [hlength, hactive, hn, Nat.succ_sub_one, Nat.succ_add, ofNat_sub_one]
    · refine List.Perm.trans ?_ hperm
      refine List.Perm.append_right _ (List.Perm.append_right _ ?_)
      rw [← List.append_assoc]
      refine List.perm_append_comm.trans ?_
      exact (List.perm_cons_erase hconn).symm.append_right w.finished
  next => exact h

/-- The counter counts the connections however the threads interleave. -/
theorem counted_run (steps : List WebStep) : (run steps).Counted := by
  suffices hrun : ∀ w : WebConsole, w.Counted → (steps.foldl step w).Counted from hrun _ counted_new
  induction steps with
  | nil => exact fun w hw => hw
  | cons s steps ih =>
    intro w hw
    refine ih _ ?_
    cases s with
    | accept => exact hw.accept
    | proceed => exact hw.proceed
    | finish conn => exact hw.finish conn

/-- However the threads interleave: at most `maxWebConns` requests are handled at a time, and a
connection is refused if and only if that many are handled when it comes in. Every connection is
handled, refused or on its way to one of them, and only to one, so that the counter is back at zero
when all are done. -/
theorem connections_counted (steps : List WebStep) :
    (run steps).handlers.length ≤ maxWebConns ∧
      (run steps).active.toNat =
        (run steps).handlers.length + (run steps).phase.conn.length ∧
      ((run steps).handlers ++ (run steps).finished ++ (run steps).refused ++
        (run steps).phase.conn).Perm (List.range (run steps).arrived) ∧
      ((run steps).phase = .waiting →
        (((run steps).step .accept).phase = .refusing (run steps).arrived ↔
          (run steps).handlers.length = maxWebConns)) := by
  have hcounted := counted_run steps
  refine ⟨hcounted.limit, hcounted.toNat_active, hcounted.perm, fun hwaiting => ?_⟩
  have htoNat := hcounted.toNat_active
  rw [hwaiting, AcceptPhase.conn, List.length_nil, Nat.add_zero] at htoNat
  rw [step_accept hwaiting, htoNat]
  dsimp only
  rw [ite_eq_left_iff]
  constructor
  · exact fun h => Nat.le_antisymm hcounted.limit (Nat.le_of_not_lt fun hlt => by
      cases h (Nat.not_le_of_lt hlt))
  · exact fun h hmany => absurd h.ge hmany

end WebConsole

end ChronoShift
