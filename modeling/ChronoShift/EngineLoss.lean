import ChronoShift.EngineRuns
import ChronoShift.ToMathlib.Counter

/-!
# Lost starts

A leader and a member, with the messages on their way from the one to the other. The leader's
counter moves with every round that it starts; the member's counter moves only to the next number.
After a lost start the two differ, and every later start has the wrong number. The number of a lost
round is made up for by its result, and by nothing else: `RoundSyncResponse` is ignored.

* `Link.currentRoundId_member`: the member's counter, in terms of what it has been handed;
* `Link.recovers_iff`: when the member answers one of the later rounds.
-/

namespace ChronoShift

open ToMathlib

/-- The reply to a reconnecting node: the current round, and the hashes of the shares that have been
collected for it. -/
def RoundTracker.buildSyncResponse (prim : Primitives) (order : IterOrder (String × Bytes))
    (t : RoundTracker) (leaderUid channel : String) (collector : RoundCollector) : PeerMessage :=
  .roundSyncResponse leaderUid channel t.currentRoundId collector.payloadLen
    ((order.visit collector.sharesReceived.pairs).map fun p =>
      (p.1, hexEncode (prim.sha256 p.2).toList))

/-- A message that is handed to the member, with the state that it is in. -/
structure Delivery where
  member : RoundEngine
  env : CallEnv
  ctx : RoundContext
  msg : PeerMessage

/-- What the member does with the message. -/
def Delivery.result (prim : Primitives) (d : Delivery) : EngineResult :=
  d.member.handleIncoming prim d.env d.ctx d.msg

/-- A leader and a member. -/
structure Link where
  leader : RoundEngine
  member : RoundEngine
  /-- The messages on their way to the member, in order. -/
  inFlight : List PeerMessage
  /-- What the member has been handed so far. -/
  deliveries : List Delivery

namespace Link

/-- The leader has made a call, and what it sends to the member is on its way. -/
def send (s : Link) (r : EngineResult) : Link :=
  { s with
    leader := r.engine
    inFlight := s.inFlight ++ (r.outgoing.filter fun p => p.1 = s.member.myUid).map Prod.snd }

/-- One step. Starts are lost only while `lossy` holds. -/
inductive Step (prim : Primitives) (lossy : Prop) (s : Link) : Link → Prop
  | queueLeader (text : String) : Step prim lossy s { s with leader := s.leader.queueMessage text }
  | queueMember (text : String) : Step prim lossy s { s with member := s.member.queueMessage text }
  /-- The leader starts a round. -/
  | start (env : CallEnv) (ctx : RoundContext) (channel : String) (participants : List String) :
      Step prim lossy s (s.send (s.leader.startRoundAsLeader prim env ctx channel participants))
  /-- The leader starts a round, and the member is not told. -/
  | lose (env : CallEnv) (ctx : RoundContext) (channel : String) (participants : List String) :
      lossy → Step prim lossy s
        { s with leader := (s.leader.startRoundAsLeader prim env ctx channel participants).engine }
  /-- The leader handles a message. It is the only leader, so nobody else opens a round. -/
  | handle (env : CallEnv) (ctx : RoundContext) (msg : PeerMessage) :
      RoundEngine.countedId prim msg = none →
        Step prim lossy s (s.send (s.leader.handleIncoming prim env ctx msg))
  /-- The leader tells the member of the current round. -/
  | sync (order : IterOrder (String × Bytes)) (channel : String) (collector : RoundCollector) :
      Step prim lossy s { s with
        inFlight := s.inFlight ++ [s.leader.tracker.buildSyncResponse prim order s.leader.myUid
          channel collector] }
  /-- The next message on its way is handed to the member. -/
  | deliver (env : CallEnv) (ctx : RoundContext) {msg : PeerMessage} {rest : List PeerMessage} :
      s.inFlight = msg :: rest → Step prim lossy s { s with
        member := (s.member.handleIncoming prim env ctx msg).engine
        inFlight := rest
        deliveries := s.deliveries ++ [⟨s.member, env, ctx, msg⟩] }

/-- The numbers of the rounds that the member has been told of, in order. -/
def roundIds (prim : Primitives) (deliveries : List Delivery) : List ℕ :=
  deliveries.filterMap fun d => RoundEngine.countedId prim d.msg

/-- A run of a leader and a member: their counters are equal at first, starts are lost up to `lost`,
everything is delivered afterwards, and three further rounds are started. -/
structure Recovery (prim : Primitives) (n : ℕ) (first lost now : Link) : Prop where
  leader : first.leader.tracker.currentRoundId = n
  member : first.member.tracker.currentRoundId = n
  inFlight : first.inFlight = []
  deliveries : first.deliveries = []
  losses : Relation.ReflTransGen (Step prim True) first lost
  restored : Relation.ReflTransGen (Step prim False) lost now
  further : lost.leader.tracker.currentRoundId + 3 ≤ now.leader.tracker.currentRoundId
  arrived : now.inFlight = []

/-- The member accepts the start of a round and answers it with a share. -/
def Answers (prim : Primitives) (d : Delivery) (roundId : ℕ) : Prop :=
  ∃ channel leaderId participants deadlineSecs payloadLen,
    d.msg = .dcRoundStart channel roundId leaderId participants deadlineSecs payloadLen ∧
      (d.result prim).engine.tracker.currentRoundId = roundId ∧
      ∃ share signature, (leaderId, .dcRoundShare channel roundId d.member.myUid share signature) ∈
        (d.result prim).outgoing

/-- We are one of several participants, have an edge key for each other one, the first queued text,
if there is one, fits in a share, and the share in a `Vec`. -/
def CanShare (e : RoundEngine) (ctx : RoundContext) (participants : List String)
    (payloadLen : ℕ) : Prop :=
  2 ≤ participants.length ∧ e.myUid ∈ participants ∧
    (∀ other ∈ participants, other ≠ e.myUid → other ∈ ctx.edgeKeys) ∧
    (∀ text, e.tracker.messageQueue.head? = some text → 36 + (asBytes text).length ≤ payloadLen) ∧
    payloadLen ≤ maxVecLen

/-- The start of a round comes in time: of every round since the counters were equal, and not yet of
this one, the start or the result has been delivered, in order. And the share can be computed. -/
def InTime (prim : Primitives) (n : ℕ) (earlier : List Delivery) (d : Delivery) (roundId : ℕ) :
    Prop :=
  ∃ channel leaderId participants deadlineSecs payloadLen,
    d.msg = .dcRoundStart channel roundId leaderId participants deadlineSecs payloadLen ∧
      (List.range' (n + 1) (roundId - 1 - n)).Sublist (roundIds prim earlier) ∧
      ¬ (List.range' (n + 1) (roundId - 1 - n + 1)).Sublist (roundIds prim earlier) ∧
      CanShare d.member d.ctx participants payloadLen

variable {prim : Primitives} {n : ℕ} {s s' : Link}

/-! ## The counters -/

/-- No step moves the counter of the leader back. -/
theorem currentRoundId_step_leader {lossy : Prop} (h : Step prim lossy s s') :
    s.leader.tracker.currentRoundId ≤ s'.leader.tracker.currentRoundId := by
  cases h with
  | start env ctx channel participants =>
    obtain ⟨c, -, hengine, -, -⟩ :=
      @RoundEngine.startRoundAsLeader_spec prim env s.leader ctx channel participants
    rw [send, hengine]
    exact Nat.le_succ _
  | lose env ctx channel participants =>
    obtain ⟨c, -, hengine, -, -⟩ :=
      @RoundEngine.startRoundAsLeader_spec prim env s.leader ctx channel participants
    rw [hengine]
    exact Nat.le_succ _
  | handle env ctx msg hmsg =>
    rw [send, RoundEngine.currentRoundId_handleIncoming]
    split <;> omega
  | _ => exact le_rfl

/-- The counter of the leader does not go back in a run. -/
theorem currentRoundId_run_leader {lossy : Prop}
    (h : Relation.ReflTransGen (Step prim lossy) s s') :
    s.leader.tracker.currentRoundId ≤ s'.leader.tracker.currentRoundId := by
  induction h with
  | refl => exact le_rfl
  | tail _ hstep ih => exact ih.trans (currentRoundId_step_leader hstep)

/-- The member's counter is the one that is shown the numbers that the member is told of, also at
each delivery. -/
structure Counted (prim : Primitives) (n : ℕ) (s : Link) : Prop where
  member : s.member.tracker.currentRoundId = (roundIds prim s.deliveries).foldl advance n
  delivery : ∀ earlier d later, s.deliveries = earlier ++ d :: later →
    d.member.tracker.currentRoundId = (roundIds prim earlier).foldl advance n

/-- A delivery shows the member's counter the number that the message counts as. -/
theorem Counted.deliver (h : Counted prim n s) (env : CallEnv) (ctx : RoundContext)
    (msg : PeerMessage) (rest : List PeerMessage) :
    Counted prim n { s with
      member := (s.member.handleIncoming prim env ctx msg).engine
      inFlight := rest
      deliveries := s.deliveries ++ [⟨s.member, env, ctx, msg⟩] } := by
  constructor
  · rw [RoundEngine.currentRoundId_handleIncoming, roundIds, RoundEngine.filterMap_snoc,
      List.foldl_append, ← roundIds, ← h.member]
    -- the rule of `mark_seen` is that of the counter
    cases hid : RoundEngine.countedId prim msg with
    | none => rfl
    | some id =>
      simp only [Option.toList_some, List.foldl_cons, List.foldl_nil, advance,
        Option.some.injEq]
      split <;> simp_all
  · intro earlier d later heq
    rcases List.eq_nil_or_concat later with rfl | ⟨later, last, rfl⟩
    -- the delivery that has just been made
    · obtain ⟨rfl, hd⟩ := List.append_inj' heq rfl
      rw [← List.singleton_inj.mp hd]
      exact h.member
    · rw [List.concat_eq_append, ← List.cons_append, ← List.append_assoc] at heq
      exact h.delivery earlier d later (List.append_inj' heq rfl).1

/-- Only deliveries move the counter of the member. -/
theorem Counted.step (h : Counted prim n s) {lossy : Prop} (hstep : Step prim lossy s s') :
    Counted prim n s' := by
  cases hstep with
  | deliver env ctx hmsg => exact h.deliver env ctx _ _
  | queueMember text => exact ⟨h.member, h.delivery⟩
  | _ => exact ⟨h.member, h.delivery⟩

/-- The member's counter is the one that is shown the numbers, throughout a run. -/
theorem Counted.run (h : Counted prim n s) {lossy : Prop}
    (hrun : Relation.ReflTransGen (Step prim lossy) s s') : Counted prim n s' := by
  induction hrun with
  | refl => exact h
  | tail _ hstep ih => exact ih.step hstep

/-- In a recovery, the member counts from the number that both counters had at first. -/
theorem Recovery.counted {first lost now : Link} (h : Recovery prim n first lost now) :
    Counted prim n now := by
  -- nothing has been delivered when the counters are equal
  have hfirst : Counted prim n first := by
    constructor
    · rw [h.deliveries]
      exact h.member
    · intro earlier d later heq
      rw [h.deliveries] at heq
      cases earlier <;> cases heq
  exact (hfirst.run h.losses).run h.restored

/-! ## Answers -/

/-- A start is answered if and only if it has the next number and the share can be computed. -/
theorem answers_iff (d : Delivery) (roundId : ℕ) :
    Answers prim d roundId ↔ ∃ channel leaderId participants deadlineSecs payloadLen,
      d.msg = .dcRoundStart channel roundId leaderId participants deadlineSecs payloadLen ∧
        d.member.tracker.currentRoundId + 1 = roundId ∧
        CanShare d.member d.ctx participants payloadLen := by
  refine exists_congr fun channel => exists_congr fun leaderId => exists_congr fun participants =>
    exists_congr fun deadlineSecs => exists_congr fun payloadLen => and_congr_right fun hmsg => ?_
  rw [Delivery.result, hmsg, RoundEngine.handleIncoming]
  by_cases hnext : roundId = d.member.tracker.currentRoundId + 1
  · obtain ⟨hengine, -, hout⟩ := @RoundEngine.handleRoundStart_next prim d.member d.ctx roundId
      hnext channel leaderId participants payloadLen
    rw [hengine, hout, CanShare, ← @RoundEngine.answer_isSome prim d.member d.ctx roundId]
    simp only [true_and, hnext.symm]
    cases d.member.answer prim d.ctx roundId participants payloadLen <;> simp
  · rw [RoundEngine.handleRoundStart_of_ne hnext]
    refine iff_of_false ?_ fun h => hnext h.1.symm
    rintro ⟨-, share, signature, hmem⟩
    cases hmem

/-- After the losses the member answers one of the later rounds if and only if one of their starts
comes in time. -/
theorem recovers_iff (prim : Primitives) {n : ℕ} {first lost now : Link}
    (h : Recovery prim n first lost now) :
    (∃ d ∈ now.deliveries, ∃ roundId, lost.leader.tracker.currentRoundId < roundId ∧
        Answers prim d roundId) ↔
      ∃ earlier d later roundId, now.deliveries = earlier ++ d :: later ∧
        lost.leader.tracker.currentRoundId < roundId ∧ InTime prim n earlier d roundId := by
  have hle : n ≤ lost.leader.tracker.currentRoundId :=
    h.leader ▸ currentRoundId_run_leader h.losses
  -- the counter at a delivery is one less than the number of the round
  have hiff : ∀ earlier d later roundId, now.deliveries = earlier ++ d :: later →
      lost.leader.tracker.currentRoundId < roundId →
        (Answers prim d roundId ↔ InTime prim n earlier d roundId) := by
    intro earlier d later roundId heq hlater
    rw [answers_iff, InTime]
    refine exists_congr fun channel => exists_congr fun leaderId => exists_congr fun participants =>
      exists_congr fun deadlineSecs => exists_congr fun payloadLen => and_congr_right fun _ => ?_
    rw [h.counted.delivery earlier d later heq, ← and_assoc,
      ← foldl_advance_eq_iff (by omega : n ≤ roundId - 1)]
    exact and_congr_left' (by omega)
  constructor
  · rintro ⟨d, hd, roundId, hlater, hanswers⟩
    obtain ⟨earlier, later, heq⟩ := List.append_of_mem hd
    exact ⟨earlier, d, later, roundId, heq, hlater,
      (hiff earlier d later roundId heq hlater).mp hanswers⟩
  · rintro ⟨earlier, d, later, roundId, heq, hlater, hready⟩
    exact ⟨d, heq ▸ List.mem_append_right _ List.mem_cons_self, roundId, hlater,
      (hiff earlier d later roundId heq hlater).mpr hready⟩

/-! ## Two runs -/

/-- `bob` has the edge keys of the other participants. -/
def bobWithKeys : RoundContext :=
  ⟨"bob", .replicate 32 0,
    (AList.singleton "alice" (.replicate 32 9)).insert "carol" (.replicate 32 8), ∅⟩

def aliceAlone : RoundContext := ⟨"alice", .replicate 32 0, ∅, ∅⟩

/-- `alice` starts a round with `bob` and `carol`. -/
def aliceStartsRound (s : Link) : EngineResult :=
  s.leader.startRoundAsLeader .const .still aliceAlone "#x" ["alice", "bob", "carol"]

/-- The next message on its way reaches `bob`. -/
def handOver (s : Link) : Link :=
  match s.inFlight with
  | [] => s
  | msg :: rest =>
    { s with
      member := (s.member.handleIncoming .const .still bobWithKeys msg).engine
      inFlight := rest
      deliveries := s.deliveries ++ [⟨s.member, .still, bobWithKeys, msg⟩] }

/-- `alice` starts a round, and `bob` is told of it. -/
def announceRound (s : Link) : Link := (s.send s.aliceStartsRound).handOver

/-- Handing over a message is a step, if there is one. -/
theorem run_handOver {lossy : Prop} (s : Link) :
    Relation.ReflTransGen (Step .const lossy) s s.handOver := by
  unfold handOver
  split
  · exact .refl
  next msg rest hmsg => exact .single (.deliver .still bobWithKeys hmsg)

/-- Announcing a round to `bob` is a run without losses. -/
theorem run_announceRound {lossy : Prop} (s : Link) :
    Relation.ReflTransGen (Step .const lossy) s s.announceRound :=
  .head (.start .still aliceAlone "#x" ["alice", "bob", "carol"]) (run_handOver _)

/-- If nothing else is on its way, `bob` is handed the start of the round. -/
theorem deliveries_announceRound {s : Link} (h : s.inFlight = []) (huid : s.member.myUid = "bob") :
    s.announceRound.deliveries = s.deliveries ++ [⟨s.member, .still, bobWithKeys,
      .dcRoundStart "#x" (s.leader.tracker.currentRoundId + 1) s.leader.myUid
        ["alice", "bob", "carol"] 30 1024⟩] := by
  have hsent : (s.send s.aliceStartsRound).inFlight = [.dcRoundStart "#x"
      (s.leader.tracker.currentRoundId + 1) s.leader.myUid ["alice", "bob", "carol"] 30 1024] := by
    obtain ⟨c, -, -, -, hout⟩ := @RoundEngine.startRoundAsLeader_spec .const .still s.leader
      aliceAlone "#x" ["alice", "bob", "carol"]
    rw [send, aliceStartsRound, hout, h, huid]
    rfl
  rw [announceRound, handOver, hsent]
  rfl

/-- Handing over a message keeps the deliveries so far. -/
theorem exists_deliveries_handOver (s : Link) :
    ∃ later, s.handOver.deliveries = s.deliveries ++ later := by
  unfold handOver
  split
  · exact ⟨[], (List.append_nil _).symm⟩
  · exact ⟨_, rfl⟩

/-- Announcing three rounds is a run without losses. -/
theorem run_announceRound_three (s : Link) : Relation.ReflTransGen (Step .const False) s
    s.announceRound.announceRound.announceRound :=
  ((run_announceRound s).trans (run_announceRound _)).trans (run_announceRound _)

/-- `alice` and `bob` before the first round. -/
def fresh : Link := ⟨.new "alice", .new "bob", [], []⟩

/-- The start of round 1 does not reach `bob`. -/
def lostStart : Link := { fresh with leader := fresh.aliceStartsRound.engine }

/-- Losing a start is a run. -/
theorem run_lostStart : Relation.ReflTransGen (Step .const True) fresh lostStart :=
  .single (.lose .still aliceAlone "#x" ["alice", "bob", "carol"] trivial)

/-- The share of `carol` comes after the deadline of round 1. -/
def lateShare : PeerMessage := .dcRoundShare "#x" 1 "carol" (List.replicate 1024 0) []

/-- The result of round 1 reaches `bob`. -/
def madeUp : Link :=
  (lostStart.send (lostStart.leader.handleIncoming .const ⟨.stored, .stored, 40, fun _ => 40⟩
    aliceAlone lateShare)).handOver

/-- The result of a lost round may reach `bob`. -/
theorem run_madeUp : Relation.ReflTransGen (Step .const True) fresh madeUp :=
  (run_lostStart.tail (.handle _ aliceAlone lateShare rfl)).trans (run_handOver _)

/-- The start of round 1 is lost, but its result arrives, and `bob` answers round 2. -/
theorem recovers_iff_result :
    ∃ d ∈ madeUp.announceRound.announceRound.announceRound.deliveries, ∃ roundId,
      madeUp.leader.tracker.currentRoundId < roundId ∧ Answers .const d roundId := by
  have hrecovery : Recovery .const 0 fresh madeUp
      madeUp.announceRound.announceRound.announceRound :=
    ⟨rfl, rfl, rfl, rfl, run_madeUp, run_announceRound_three madeUp, by decide +kernel,
      by decide +kernel⟩
  have hsecond := deliveries_announceRound (by decide +kernel : madeUp.inFlight = [])
    (by decide +kernel)
  rw [(by decide +kernel : madeUp.leader.tracker.currentRoundId = 1),
    (by decide +kernel : madeUp.leader.myUid = "alice")] at hsecond
  -- the second round is the one that is answered; the deliveries of the others do not matter
  obtain ⟨third, hthird⟩ := exists_deliveries_handOver (madeUp.announceRound.send
    madeUp.announceRound.aliceStartsRound)
  obtain ⟨fourth, hfourth⟩ := exists_deliveries_handOver
    (madeUp.announceRound.announceRound.send madeUp.announceRound.announceRound.aliceStartsRound)
  refine (recovers_iff .const hrecovery).mpr ⟨madeUp.deliveries, ⟨madeUp.member, .still,
      bobWithKeys, .dcRoundStart "#x" 2 "alice" ["alice", "bob", "carol"] 30 1024⟩,
    third ++ fourth, 2, hfourth.trans ?_, by decide +kernel, "#x", "alice",
    ["alice", "bob", "carol"], 30, 1024, rfl, by decide +kernel, by decide +kernel, by decide,
    by decide +kernel, by decide +kernel, ?_, by decide⟩
  · rw [send, announceRound, hthird, send, hsecond, List.append_assoc, List.append_assoc]
    rfl
  · rw [(by decide +kernel : madeUp.member.tracker.messageQueue = [])]
    intro text htext
    cases htext

/-- The start of round 1 is lost, and `bob` answers none of the next three rounds. -/
theorem never_recovers :
    ¬ ∀ (prim : Primitives) (n : ℕ) (first lost now : Link), Recovery prim n first lost now →
      ∃ d ∈ now.deliveries, ∃ roundId, lost.leader.tracker.currentRoundId < roundId ∧
        Answers prim d roundId := by
  intro hclaim
  have hrecovery : Recovery .const 0 fresh lostStart
      lostStart.announceRound.announceRound.announceRound :=
    ⟨rfl, rfl, rfl, rfl, run_lostStart, run_announceRound_three lostStart, by decide +kernel,
      by decide +kernel⟩
  obtain ⟨d, hd, roundId, hlater, hanswers⟩ := hclaim _ _ _ _ _ hrecovery
  have hcounter : ∀ d ∈ lostStart.announceRound.announceRound.announceRound.deliveries,
      d.member.tracker.currentRoundId = 0 := by decide +kernel
  obtain ⟨_, _, _, _, _, -, hnext, -⟩ := (answers_iff d roundId).mp hanswers
  have hlost : lostStart.leader.tracker.currentRoundId = 1 := rfl
  have := hcounter d hd
  omega

end Link

end ChronoShift
