import ChronoShift.EngineQueue

/-!
# Runs of the round engine

What one call of `RoundEngine` can do, as inversion lemmas, and the histories of an engine: the
steps it has taken since it was new, each with the state that it was taken in.

The rounds of an engine are those it has led and those it has been invited to. Each of them has
moved the counter, so no number is used twice.

* `RoundEngine.handleRoundShare_cases`: a share is dropped, collected, or completes its round;
* `RoundEngine.currentRoundId_handleIncoming`: the messages that move the counter;
* `RoundEngine.step_effect`: what a step can do, from which the invariants of a run are derived;
* `RoundEngine.Reachable.numbered`: the numbers of the rounds so far.
-/

namespace ChronoShift

open ToMathlib

namespace RoundEngine

variable {prim : Primitives} {env : CallEnv} {e : RoundEngine} {ctx : RoundContext}

/-! ## What a call does -/

/-- The number of the round that a message opens or closes. A result counts if its frame passes the
checksum. -/
def countedId (prim : Primitives) : PeerMessage → Option ℕ
  | .dcRoundStart _ roundId _ _ _ _ => some roundId
  | .dcRoundResult _ roundId extractedMessage _ =>
    if (unpadMessage prim extractedMessage).isSome then some roundId else none
  | _ => none

/-- A share is taken: its signature is not found wrong, and the collector of its round accepts
it. -/
def Takes (prim : Primitives) (e : RoundEngine) (ctx : RoundContext) (channel : String)
    (roundId : ℕ) (peerUid : String) (xored signature : Bytes) (c c' : RoundCollector) : Prop :=
  badSignature prim ctx channel roundId peerUid xored signature = false ∧
    e.collectors.lookup roundId = some c ∧ c.submitShare peerUid xored = .ok c'

/-- A taken share is stored, or completes its round, or completes it and yields a text. -/
inductive Collected (e : RoundEngine) (channel : String) (roundId : ℕ) (c' : RoundCollector) :
    EngineResult → Prop
  | stored : Collected e channel roundId c'
      { engine := { e with collectors := e.collectors.insert roundId c' } }
  | dropped : Collected e channel roundId c'
      { engine := { e with collectors := e.collectors.erase roundId } }
  | extracted (text : String) (payload : Bytes) (targets : List String) :
      Collected e channel roundId c'
        { engine := { e with collectors := e.collectors.erase roundId }
          event := some (.messageExtracted channel text roundId)
          outgoing := targets.map fun p => (p, .dcRoundResult channel roundId payload []) }

/-- Collecting a share changes the collectors only. -/
theorem Collected.frame {channel : String} {roundId : ℕ} {c' : RoundCollector} {r : EngineResult}
    (h : Collected e channel roundId c' r) :
    r.engine = { e with collectors := r.engine.collectors } := by
  cases h <;> rfl

/-- A share is dropped, or it is taken. -/
theorem handleRoundShare_cases (channel : String) (roundId : ℕ) (peerUid : String)
    (xored signature : Bytes) :
    (e.handleRoundShare prim env ctx channel roundId peerUid xored signature = { engine := e } ∧
      ∀ c c', ¬ Takes prim e ctx channel roundId peerUid xored signature c c') ∨
    ∃ c c', Takes prim e ctx channel roundId peerUid xored signature c c' ∧
      Collected e channel roundId c'
        (e.handleRoundShare prim env ctx channel roundId peerUid xored signature) := by
  rw [handleRoundShare]
  split
  next hbad =>
    refine .inl ⟨rfl, fun c c' htakes => ?_⟩
    rw [htakes.1] at hbad
    cases hbad
  next hgood =>
    split
    next hnone =>
      refine .inl ⟨rfl, fun c c' htakes => ?_⟩
      rw [htakes.2.1] at hnone
      cases hnone
    next c hc =>
      split
      next hrefused =>
        refine .inl ⟨rfl, fun d d' htakes => ?_⟩
        obtain rfl := Option.some.inj (hc.symm.trans htakes.2.1)
        rw [htakes.2.2] at hrefused
        cases hrefused
      next c' hc' =>
        refine .inr ⟨c, c', ⟨Bool.eq_false_of_not_eq_true hgood, hc, hc'⟩, ?_⟩
        dsimp only
        -- a round that is complete or has expired is summed up, if that can be done
        split
        · split
          · exact .stored
          · split
            · exact .dropped
            · exact .extracted _ _ _
        · exact .stored

theorem markSeen_of_next (t : RoundTracker) :
    t.markSeen (t.currentRoundId + 1) =
      (true, { t with currentRoundId := t.currentRoundId + 1 }) := if_pos rfl

theorem markSeen_of_ne {t : RoundTracker} {roundId : ℕ} (h : roundId ≠ t.currentRoundId + 1) :
    t.markSeen roundId = (false, t) := if_neg h

/-- A start of another round than the next one is refused. -/
theorem handleRoundStart_of_ne {roundId : ℕ} (h : roundId ≠ e.tracker.currentRoundId + 1)
    (channel leaderId : String) (participants : List String) (payloadLen : ℕ) :
    e.handleRoundStart prim ctx channel roundId leaderId participants payloadLen =
      { engine := e } := by
  rw [handleRoundStart, markSeen_of_ne h]

/-- The share with which the engine answers a start of the next round. -/
def answer (prim : Primitives) (e : RoundEngine) (ctx : RoundContext) (roundId : ℕ)
    (participants : List String) (payloadLen : ℕ) : Option Bytes :=
  if SharePanics e.myUid participants payloadLen then none
  else
    computeXorShareSecure prim roundId e.myUid participants
      (e.tracker.messageQueue.head?.map asBytes) payloadLen ctx.edgeKeys

/-- The engine answers if it is one of several participants, has an edge key for each other one, the
first queued text fits in a share, and the share in a `Vec`. -/
theorem answer_isSome {roundId : ℕ} {participants : List String} {payloadLen : ℕ} :
    (answer prim e ctx roundId participants payloadLen).isSome ↔
      2 ≤ participants.length ∧ e.myUid ∈ participants ∧
        (∀ other ∈ participants, other ≠ e.myUid → other ∈ ctx.edgeKeys) ∧
        (∀ text, e.tracker.messageQueue.head? = some text →
          36 + (asBytes text).length ≤ payloadLen) ∧ payloadLen ≤ maxVecLen := by
  rw [answer]
  split
  next hpanic =>
    exact iff_of_false Bool.false_ne_true fun h => absurd h.2.2.2.2 (not_le.mpr hpanic.2.2)
  next hreturns =>
    rw [computeXorShareSecure_isSome]
    simp only [Option.map_eq_some_iff, forall_exists_index, and_imp, forall_apply_eq_imp_iff₂]
    constructor
    · rintro ⟨htwo, hmem, hkeys, hfits⟩
      exact ⟨htwo, hmem, hkeys, hfits, not_lt.mp fun hlong => hreturns ⟨htwo, hmem, hlong⟩⟩
    · rintro ⟨htwo, hmem, hkeys, hfits, -⟩
      exact ⟨htwo, hmem, hkeys, hfits⟩

/-- An answer has the announced length. -/
theorem length_answer {roundId : ℕ} {participants : List String} {payloadLen : ℕ} {share : Bytes}
    (h : answer prim e ctx roundId participants payloadLen = some share) :
    share.length = payloadLen := by
  rw [answer] at h
  split at h
  · cases h
  · exact (computeXorShareSecure_eq_some h).1

/-- The start of the next round moves the counter, takes a queued text, and is answered if a share
can be computed. -/
theorem handleRoundStart_next {roundId : ℕ} (h : roundId = e.tracker.currentRoundId + 1)
    (channel leaderId : String) (participants : List String) (payloadLen : ℕ) :
    let result := e.handleRoundStart prim ctx channel roundId leaderId participants payloadLen
    result.engine = { e with
        tracker := ⟨roundId, e.tracker.messageQueue.tail⟩, leaderUid := some leaderId } ∧
      result.event = none ∧
      result.outgoing = (answer prim e ctx roundId participants payloadLen).toList.map fun share =>
        (leaderId, .dcRoundShare channel roundId e.myUid share
          (signShare prim ctx.signingKey channel roundId share)) := by
  subst h
  simp only [handleRoundStart, markSeen_of_next, dequeueMessage_eq, answer]
  split_ifs
  -- the call panics: the text is gone, and there is no answer
  · exact ⟨rfl, rfl, rfl⟩
  · split
    next hnone => exact ⟨rfl, rfl, by rw [hnone]; rfl⟩
    next share hshare => exact ⟨rfl, rfl, by rw [hshare]; rfl⟩

/-- A result whose frame fails the checksum is dropped. -/
theorem handleRoundResult_of_none {extractedMessage : Bytes}
    (h : unpadMessage prim extractedMessage = none) (channel : String) (roundId : ℕ) :
    e.handleRoundResult prim channel roundId extractedMessage = { engine := e } := by
  rw [handleRoundResult, h]

/-- A result whose frame passes the checksum is received, whoever has sent it. -/
theorem handleRoundResult_of_some {extractedMessage bytes : Bytes}
    (h : unpadMessage prim extractedMessage = some bytes) (channel : String) (roundId : ℕ) :
    e.handleRoundResult prim channel roundId extractedMessage =
      { engine := { e with tracker := (e.tracker.markSeen roundId).2 }
        event := some (.messageReceived channel ((fromUtf8 bytes).getD "(binary data)")
          roundId) } := by
  rw [handleRoundResult, h]

/-- A share changes the collectors only. -/
theorem handleRoundShare_frame (channel : String) (roundId : ℕ) (peerUid : String)
    (xored signature : Bytes) :
    (e.handleRoundShare prim env ctx channel roundId peerUid xored signature).engine =
      { e with
        collectors := (e.handleRoundShare prim env ctx channel roundId peerUid xored
          signature).engine.collectors } := by
  obtain ⟨heq, -⟩ | ⟨c, c', -, hcollected⟩ := @handleRoundShare_cases prim env e ctx channel
    roundId peerUid xored signature
  · rw [heq]
  · exact hcollected.frame

/-- A message that is not counted as the next round leaves counter and queue alone. -/
theorem tracker_handleIncoming_of_ne {msg : PeerMessage}
    (h : countedId prim msg ≠ some (e.tracker.currentRoundId + 1)) :
    (e.handleIncoming prim env ctx msg).engine.tracker = e.tracker := by
  cases msg with
  | dcRoundStart channel roundId leaderId participants deadlineSecs payloadLen =>
    have hne : roundId ≠ e.tracker.currentRoundId + 1 := fun heq => h (congrArg some heq)
    rw [handleIncoming, handleRoundStart_of_ne hne]
  | dcRoundShare channel roundId peerUid xored signature =>
    rw [handleIncoming, handleRoundShare_frame]
  | dcRoundResult channel roundId extractedMessage leaderSignature =>
    rw [handleIncoming]
    cases hframe : unpadMessage prim extractedMessage with
    | none => rw [handleRoundResult_of_none hframe]
    | some bytes =>
      have hne : roundId ≠ e.tracker.currentRoundId + 1 := by
        intro heq
        exact h (by simp [countedId, hframe, heq])
      rw [handleRoundResult_of_some hframe, markSeen_of_ne hne]
  | _ => rfl

/-- A message that is counted as the next round moves the counter to it. -/
theorem currentRoundId_handleIncoming_of_eq {msg : PeerMessage}
    (h : countedId prim msg = some (e.tracker.currentRoundId + 1)) :
    (e.handleIncoming prim env ctx msg).engine.tracker.currentRoundId =
      e.tracker.currentRoundId + 1 := by
  cases msg with
  | dcRoundStart channel roundId leaderId participants deadlineSecs payloadLen =>
    have heq : roundId = e.tracker.currentRoundId + 1 := Option.some.inj h
    rw [handleIncoming, (handleRoundStart_next heq _ _ _ _).1]
    exact heq
  | dcRoundResult channel roundId extractedMessage leaderSignature =>
    rw [handleIncoming]
    cases hframe : unpadMessage prim extractedMessage with
    | none => simp [countedId, hframe] at h
    | some bytes =>
      have heq : roundId = e.tracker.currentRoundId + 1 := by simpa [countedId, hframe] using h
      rw [handleRoundResult_of_some hframe, heq, markSeen_of_next]
  | _ => cases h

/-- The counter after a message. -/
theorem currentRoundId_handleIncoming (msg : PeerMessage) :
    (e.handleIncoming prim env ctx msg).engine.tracker.currentRoundId =
      if countedId prim msg = some (e.tracker.currentRoundId + 1) then e.tracker.currentRoundId + 1
      else e.tracker.currentRoundId := by
  split
  next h => exact currentRoundId_handleIncoming_of_eq h
  next h => rw [tracker_handleIncoming_of_ne h]

/-- A message does not change our uid. -/
theorem myUid_handleIncoming (msg : PeerMessage) :
    (e.handleIncoming prim env ctx msg).engine.myUid = e.myUid := by
  cases msg with
  | dcRoundStart channel roundId leaderId participants deadlineSecs payloadLen =>
    rw [handleIncoming]
    by_cases hnext : roundId = e.tracker.currentRoundId + 1
    · rw [(handleRoundStart_next hnext _ _ _ _).1]
    · rw [handleRoundStart_of_ne hnext]
  | dcRoundShare channel roundId peerUid xored signature =>
    rw [handleIncoming, handleRoundShare_frame]
  | dcRoundResult channel roundId extractedMessage leaderSignature =>
    rw [handleIncoming, handleRoundResult]
    split <;> rfl
  | _ => rfl

/-- A new round has the next number, and its collector the channel of the call. -/
theorem startRoundAsLeader_spec (channel : String) (participants : List String) :
    let result := e.startRoundAsLeader prim env ctx channel participants
    ∃ c : RoundCollector, c.channel = channel ∧
      result.engine = { e with
        tracker := ⟨e.tracker.currentRoundId + 1, e.tracker.messageQueue.tail⟩
        collectors := e.collectors.insert (e.tracker.currentRoundId + 1) c } ∧
      result.event = none ∧
      result.outgoing = participants.map fun p => (p, .dcRoundStart channel
        (e.tracker.currentRoundId + 1) e.myUid participants (min 30 maxRoundDeadlineSecs)
        defaultPayloadLen) := by
  dsimp only [startRoundAsLeader, RoundTracker.nextRound]
  rw [dequeueMessage_eq]
  refine ⟨_, ?_, rfl, rfl, rfl⟩
  -- the collector is new, with or without our own share
  split
  next share _ => exact (RoundCollector.trySubmit_frame _ e.myUid share).1
  next => rfl

/-! ## Histories -/

/-- What an engine is given. -/
inductive Input where
  | queueMessage (text : String)
  | call (env : CallEnv) (ctx : RoundContext) (call : Call)

/-- Carry out one step. -/
def step (prim : Primitives) (e : RoundEngine) : Input → EngineResult
  | .queueMessage text => { engine := e.queueMessage text }
  | .call env ctx call => e.call prim env ctx call

/-- A step, with the state that it is taken in. -/
structure Step where
  before : RoundEngine
  input : Input

namespace Step

/-- What a step does. -/
def result (prim : Primitives) (s : Step) : EngineResult := s.before.step prim s.input

/-- The number and the channel of the round that a step starts as its leader. -/
def led (s : Step) : Option (ℕ × String) :=
  match s.input with
  | .call _ _ (.startRoundAsLeader channel _) =>
    some (s.before.tracker.currentRoundId + 1, channel)
  | _ => none

/-- The number of the round whose start a step accepts. -/
def joined (s : Step) : Option ℕ :=
  match s.input with
  | .call _ _ (.handleIncoming (.dcRoundStart _ roundId _ _ _ _)) =>
    if roundId = s.before.tracker.currentRoundId + 1 then some roundId else none
  | _ => none

end Step

/-- What a step can do: nothing to the rounds, lead the next round, accept its start, take a share,
or receive a result. -/
inductive Effect (prim : Primitives) (e : RoundEngine) (r : EngineResult) : Input → Prop
  | quiet {input : Input} (hled : Step.led ⟨e, input⟩ = none)
      (hjoined : Step.joined ⟨e, input⟩ = none)
      (hcounter : r.engine.tracker.currentRoundId = e.tracker.currentRoundId)
      (hcollectors : r.engine.collectors = e.collectors) (hevent : r.event = none)
      (hout : r.outgoing = []) : Effect prim e r input
  | lead {env : CallEnv} {ctx : RoundContext} {channel : String} {participants : List String}
      {c : RoundCollector} (hchannel : c.channel = channel)
      (hcounter : r.engine.tracker.currentRoundId = e.tracker.currentRoundId + 1)
      (hcollectors : r.engine.collectors = e.collectors.insert (e.tracker.currentRoundId + 1) c)
      (hevent : r.event = none)
      (hout : r.outgoing = participants.map fun p => (p, .dcRoundStart channel
        (e.tracker.currentRoundId + 1) e.myUid participants (min 30 maxRoundDeadlineSecs)
        defaultPayloadLen)) :
      Effect prim e r (.call env ctx (.startRoundAsLeader channel participants))
  | join {env : CallEnv} {ctx : RoundContext} {channel : String} {roundId : ℕ} {leaderId : String}
      {participants : List String} {deadlineSecs payloadLen : ℕ}
      (hnext : roundId = e.tracker.currentRoundId + 1)
      (hcounter : r.engine.tracker.currentRoundId = e.tracker.currentRoundId + 1)
      (hcollectors : r.engine.collectors = e.collectors) (hevent : r.event = none)
      (hout : r.outgoing = (answer prim e ctx roundId participants payloadLen).toList.map
        fun share => (leaderId, .dcRoundShare channel roundId e.myUid share
          (signShare prim ctx.signingKey channel roundId share))) :
      Effect prim e r (.call env ctx (.handleIncoming
        (.dcRoundStart channel roundId leaderId participants deadlineSecs payloadLen)))
  | share {env : CallEnv} {ctx : RoundContext} {channel : String} {roundId : ℕ} {peerUid : String}
      {xored signature : Bytes} {c c' : RoundCollector}
      (htakes : Takes prim e ctx channel roundId peerUid xored signature c c')
      (hcollected : Collected e channel roundId c' r) :
      Effect prim e r (.call env ctx (.handleIncoming
        (.dcRoundShare channel roundId peerUid xored signature)))
  | receive {env : CallEnv} {ctx : RoundContext} {channel : String} {roundId : ℕ}
      {extractedMessage leaderSignature bytes : Bytes}
      (hframe : unpadMessage prim extractedMessage = some bytes)
      (hcounter : e.tracker.currentRoundId ≤ r.engine.tracker.currentRoundId)
      (hcollectors : r.engine.collectors = e.collectors)
      (hevent : r.event = some (.messageReceived channel
        ((fromUtf8 bytes).getD "(binary data)") roundId))
      (hout : r.outgoing = []) :
      Effect prim e r (.call env ctx (.handleIncoming
        (.dcRoundResult channel roundId extractedMessage leaderSignature)))

/-- A message does nothing, or what its kind allows. -/
theorem handleIncoming_effect (prim : Primitives) (env : CallEnv) (e : RoundEngine)
    (ctx : RoundContext) (msg : PeerMessage) :
    Effect prim e (e.handleIncoming prim env ctx msg) (.call env ctx (.handleIncoming msg)) := by
  cases msg with
  | dcRoundStart channel roundId leaderId participants deadlineSecs payloadLen =>
    rw [handleIncoming]
    -- a start of any other round is ignored
    by_cases hnext : roundId = e.tracker.currentRoundId + 1
    · obtain ⟨hengine, hevent, hout⟩ := @handleRoundStart_next prim e ctx roundId hnext channel
        leaderId participants payloadLen
      exact .join hnext (by rw [hengine, hnext]) (by rw [hengine]) hevent hout
    · have hjoined : Step.joined ⟨e, .call env ctx (.handleIncoming (.dcRoundStart channel roundId
          leaderId participants deadlineSecs payloadLen))⟩ = none := if_neg hnext
      rw [handleRoundStart_of_ne hnext]
      exact .quiet rfl hjoined rfl rfl rfl rfl
  | dcRoundShare channel roundId peerUid xored signature =>
    rw [handleIncoming]
    obtain ⟨hdropped, -⟩ | ⟨c, c', htakes, hcollected⟩ := @handleRoundShare_cases prim env e ctx
      channel roundId peerUid xored signature
    · rw [hdropped]
      exact .quiet rfl rfl rfl rfl rfl rfl
    · exact .share htakes hcollected
  | dcRoundResult channel roundId extractedMessage leaderSignature =>
    rw [handleIncoming]
    cases hframe : unpadMessage prim extractedMessage with
    | none =>
      rw [handleRoundResult_of_none hframe]
      exact .quiet rfl rfl rfl rfl rfl rfl
    | some bytes =>
      rw [handleRoundResult_of_some hframe]
      refine .receive hframe ?_ rfl rfl rfl
      dsimp only [RoundTracker.markSeen]
      split
      next hseen => exact hseen ▸ Nat.le_succ _
      next => exact le_rfl
  | _ => exact .quiet rfl rfl rfl rfl rfl rfl

/-- Every step has one of these effects. -/
theorem step_effect (prim : Primitives) (e : RoundEngine) (input : Input) :
    Effect prim e (e.step prim input) input := by
  cases input with
  | queueMessage text => exact .quiet rfl rfl rfl rfl rfl rfl
  | call env ctx call =>
    cases call with
    | startRoundAsLeader channel participants =>
      obtain ⟨c, hchannel, hengine, hevent, hout⟩ :=
        @startRoundAsLeader_spec prim env e ctx channel participants
      exact .lead hchannel (congrArg (·.tracker.currentRoundId) hengine)
        (congrArg RoundEngine.collectors hengine) hevent hout
    | handleIncoming msg => exact handleIncoming_effect prim env e ctx msg

/-- The engines that can be reached from a new one by steps that meet `ok`, with the steps so
far. -/
inductive Reachable (prim : Primitives) (ok : List Step → Step → Prop) :
    RoundEngine → List Step → Prop
  | start (myUid : String) : Reachable prim ok (new myUid) []
  | step {e : RoundEngine} {history : List Step} (input : Input) :
      Reachable prim ok e history → ok history ⟨e, input⟩ →
      Reachable prim ok (e.step prim input).engine (history ++ [⟨e, input⟩])

/-- The rounds that an engine has led. -/
def ledRounds (history : List Step) : List (ℕ × String) := history.filterMap Step.led

/-- The rounds whose start an engine has accepted. -/
def joinedRounds (history : List Step) : List ℕ := history.filterMap Step.joined

/-- The numbers of the rounds so far: the counter has passed them, no number is used twice, and the
collectors are those of rounds that the engine has led. -/
structure Numbered (e : RoundEngine) (history : List Step) : Prop where
  led_le : ∀ round ∈ ledRounds history, round.1 ≤ e.tracker.currentRoundId
  joined_le : ∀ id ∈ joinedRounds history, id ≤ e.tracker.currentRoundId
  led_nodup : ((ledRounds history).map Prod.fst).Nodup
  led_not_joined : ∀ round ∈ ledRounds history, round.1 ∉ joinedRounds history
  collector_led : ∀ id c, e.collectors.lookup id = some c → (id, c.channel) ∈ ledRounds history

theorem filterMap_snoc {α β : Type*} (f : α → Option β) (l : List α) (a : α) :
    (l ++ [a]).filterMap f = l.filterMap f ++ (f a).toList := by
  cases h : f a <;> simp [h]

theorem ledRounds_snoc (history : List Step) (s : Step) :
    ledRounds (history ++ [s]) = ledRounds history ++ s.led.toList := filterMap_snoc _ _ _

theorem joinedRounds_snoc (history : List Step) (s : Step) :
    joinedRounds (history ++ [s]) = joinedRounds history ++ s.joined.toList := filterMap_snoc _ _ _

theorem mem_ledRounds_snoc {history : List Step} {round : ℕ × String}
    (h : round ∈ ledRounds history) (s : Step) : round ∈ ledRounds (history ++ [s]) := by
  rw [ledRounds_snoc]
  exact List.mem_append_left _ h

theorem mem_joinedRounds_snoc {history : List Step} {id : ℕ} (h : id ∈ joinedRounds history)
    (s : Step) : id ∈ joinedRounds (history ++ [s]) := by
  rw [joinedRounds_snoc]
  exact List.mem_append_left _ h

namespace Numbered

variable {history : List Step} {input : Input}

/-- A step that opens no round keeps the numbers, unless it moves the counter back or adds a
collector. -/
theorem quiet (h : Numbered e history) {e' : RoundEngine}
    (hled : Step.led ⟨e, input⟩ = none) (hjoined : Step.joined ⟨e, input⟩ = none)
    (hcounter : e.tracker.currentRoundId ≤ e'.tracker.currentRoundId)
    (hcollectors : ∀ id c', e'.collectors.lookup id = some c' →
      ∃ c, e.collectors.lookup id = some c ∧ c'.channel = c.channel) :
    Numbered e' (history ++ [⟨e, input⟩]) := by
  have hledRounds : ledRounds (history ++ [⟨e, input⟩]) = ledRounds history := by
    rw [ledRounds_snoc, hled, Option.toList_none, List.append_nil]
  have hjoinedRounds : joinedRounds (history ++ [⟨e, input⟩]) = joinedRounds history := by
    rw [joinedRounds_snoc, hjoined, Option.toList_none, List.append_nil]
  constructor
  · rw [hledRounds]
    exact fun round hround => (h.led_le round hround).trans hcounter
  · rw [hjoinedRounds]
    exact fun id hid => (h.joined_le id hid).trans hcounter
  · rw [hledRounds]
    exact h.led_nodup
  · rw [hledRounds, hjoinedRounds]
    exact h.led_not_joined
  · intro id c' hc'
    obtain ⟨c, hc, hchannel⟩ := hcollectors id c' hc'
    rw [hledRounds, hchannel]
    exact h.collector_led id c hc

/-- A round that we start has the next number. -/
theorem lead (h : Numbered e history) {e' : RoundEngine} {channel : String} {c : RoundCollector}
    (hled : Step.led ⟨e, input⟩ = some (e.tracker.currentRoundId + 1, channel))
    (hjoined : Step.joined ⟨e, input⟩ = none) (hchannel : c.channel = channel)
    (hcounter : e'.tracker.currentRoundId = e.tracker.currentRoundId + 1)
    (hcollectors : e'.collectors = e.collectors.insert (e.tracker.currentRoundId + 1) c) :
    Numbered e' (history ++ [⟨e, input⟩]) := by
  have hledRounds : ledRounds (history ++ [⟨e, input⟩]) =
      ledRounds history ++ [(e.tracker.currentRoundId + 1, channel)] := by
    rw [ledRounds_snoc, hled, Option.toList_some]
  have hjoinedRounds : joinedRounds (history ++ [⟨e, input⟩]) = joinedRounds history := by
    rw [joinedRounds_snoc, hjoined, Option.toList_none, List.append_nil]
  have hle : ∀ round ∈ ledRounds (history ++ [⟨e, input⟩]),
      round ∈ ledRounds history ∨ round = (e.tracker.currentRoundId + 1, channel) := by
    intro round hround
    rw [hledRounds] at hround
    simpa using hround
  constructor
  · intro round hround
    rcases hle round hround with hold | rfl
    · exact (h.led_le round hold).trans (by omega)
    · exact hcounter.ge
  · intro id hid
    rw [hjoinedRounds] at hid
    exact (h.joined_le id hid).trans (by omega)
  -- all numbers so far are at most the counter, so the next one is new
  · rw [hledRounds, List.map_append, List.map_singleton]
    refine h.led_nodup.append (List.nodup_singleton _) ?_
    rw [List.disjoint_singleton]
    intro hmem
    obtain ⟨round, hround, heq⟩ := List.mem_map.mp hmem
    have hlt := h.led_le round hround
    omega
  · intro round hround
    rw [hjoinedRounds]
    rcases hle round hround with hold | rfl
    · exact h.led_not_joined round hold
    · intro hmem
      have hlt := h.joined_le _ hmem
      dsimp only at hlt
      omega
  -- the collector of the round is the only new one
  · intro id c' hc'
    rw [hcollectors, HashMap.lookup_insert_ite] at hc'
    rw [hledRounds, List.mem_append, List.mem_singleton]
    split_ifs at hc' with hid
    · rw [← Option.some.inj hc', hid, hchannel]
      exact .inr rfl
    · exact .inl (h.collector_led id c' hc')

/-- A round that we are invited to has the next number. -/
theorem join (h : Numbered e history) {e' : RoundEngine}
    (hled : Step.led ⟨e, input⟩ = none)
    (hjoined : Step.joined ⟨e, input⟩ = some (e.tracker.currentRoundId + 1))
    (hcounter : e'.tracker.currentRoundId = e.tracker.currentRoundId + 1)
    (hcollectors : e'.collectors = e.collectors) :
    Numbered e' (history ++ [⟨e, input⟩]) := by
  have hledRounds : ledRounds (history ++ [⟨e, input⟩]) = ledRounds history := by
    rw [ledRounds_snoc, hled, Option.toList_none, List.append_nil]
  have hjoinedRounds : joinedRounds (history ++ [⟨e, input⟩]) =
      joinedRounds history ++ [e.tracker.currentRoundId + 1] := by
    rw [joinedRounds_snoc, hjoined, Option.toList_some]
  constructor
  · intro round hround
    rw [hledRounds] at hround
    exact (h.led_le round hround).trans (by omega)
  · intro id hid
    rw [hjoinedRounds, List.mem_append, List.mem_singleton] at hid
    rcases hid with hold | rfl
    · exact (h.joined_le id hold).trans (by omega)
    · exact hcounter.ge
  · rw [hledRounds]
    exact h.led_nodup
  · intro round hround
    rw [hledRounds] at hround
    rw [hjoinedRounds, List.mem_append, List.mem_singleton]
    rintro (hold | heq)
    · exact h.led_not_joined round hround hold
    -- a round of our own has a smaller number
    · have hlt := h.led_le round hround
      omega
  · intro id c hc
    rw [hledRounds]
    rw [hcollectors] at hc
    exact h.collector_led id c hc

end Numbered

/-- A taken share adds no collector, and the collector keeps its channel. -/
theorem Collected.lookup {channel channel' : String} {roundId : ℕ} {peerUid : String}
    {xored signature : Bytes} {c d : RoundCollector} {r : EngineResult}
    (hcollected : Collected e channel roundId d r)
    (htakes : Takes prim e ctx channel' roundId peerUid xored signature c d) {id : ℕ}
    {c' : RoundCollector} (hc' : r.engine.collectors.lookup id = some c') :
    ∃ c, e.collectors.lookup id = some c ∧ c'.channel = c.channel := by
  obtain ⟨-, hc, hsubmit⟩ := htakes
  have herase : (e.collectors.erase roundId).lookup id = some c' →
      ∃ c, e.collectors.lookup id = some c ∧ c'.channel = c.channel := by
    intro hlookup
    rw [HashMap.lookup_erase_ite] at hlookup
    split_ifs at hlookup
    exact ⟨c', hlookup, rfl⟩
  cases hcollected with
  | stored =>
    rw [HashMap.lookup_insert_ite] at hc'
    split_ifs at hc' with hid
    · refine ⟨c, hid ▸ hc, ?_⟩
      rw [← Option.some.inj hc']
      exact (RoundCollector.submitShare_frame hsubmit).1
    · exact ⟨c', hc', rfl⟩
  | dropped => exact herase hc'
  | extracted => exact herase hc'

theorem Numbered.step {history : List Step} (h : Numbered e history) (input : Input) :
    Numbered (e.step prim input).engine (history ++ [⟨e, input⟩]) := by
  have hsame : ∀ e' : RoundEngine, e'.collectors = e.collectors → ∀ id c',
      e'.collectors.lookup id = some c' →
        ∃ c, e.collectors.lookup id = some c ∧ c'.channel = c.channel :=
    fun e' heq id c' hc' => ⟨c', heq ▸ hc', rfl⟩
  cases step_effect prim e input with
  | quiet hled hjoined hcounter hcollectors =>
    exact h.quiet hled hjoined hcounter.ge (hsame _ hcollectors)
  | lead hchannel hcounter hcollectors => exact h.lead rfl rfl hchannel hcounter hcollectors
  | join hnext hcounter hcollectors =>
    exact h.join rfl ((if_pos hnext).trans (congrArg some hnext)) hcounter hcollectors
  | share htakes hcollected =>
    refine h.quiet rfl rfl ?_ fun id c' => hcollected.lookup htakes
    rw [hcollected.frame]
  | receive _ hcounter hcollectors => exact h.quiet rfl rfl hcounter (hsame _ hcollectors)

theorem numbered_new (myUid : String) : Numbered (new myUid) [] :=
  ⟨nofun, nofun, List.nodup_nil, nofun, fun id c hc => by simp [new] at hc⟩

/-- Every engine that can be reached keeps its numbers. -/
theorem Reachable.numbered {ok : List Step → Step → Prop} {history : List Step}
    (h : Reachable prim ok e history) : Numbered e history := by
  induction h with
  | start myUid => exact numbered_new myUid
  | step input _ _ ih => exact ih.step input

end RoundEngine

end ChronoShift
