import ChronoShift.DcNet.Cancellation
import ChronoShift.EngineQueue

/-!
# Agreement on the text of a round

One round of the leader-based engine. All participants stand at the same counter, and one of them
has a queued text. The leader starts the round, and the network delivers what has been sent, in any
order and as often as it likes, before the deadline of the round.

A share that is delivered twice is refused as a duplicate, or finds no collector any more. So the
leader extracts the round once, when the last share arrives, and by then the masks have cancelled.

* `EngineRound.Sent`: everything that is ever sent in the round;
* `EngineRound.LeaderInv`: the leader's collector holds the shares that have been delivered;
* `EngineRound.agreement`: the leader extracts the queued text, once, and everybody receives it.
-/

namespace ChronoShift

open ToMathlib

/-- The nodes at the beginning of a round, of which only `sender` has a queued text. -/
structure EngineRound (prim : Primitives) where
  channel : String
  leader : String
  participants : List String
  engines : String → RoundEngine
  ctx : String → RoundContext
  roundId : ℕ
  sender : String
  text : String
  nodup : participants.Nodup
  leader_mem : leader ∈ participants
  myUid : ∀ uid ∈ participants, (engines uid).myUid = uid
  /-- The round is the next one of every participant. -/
  counter : ∀ uid ∈ participants, roundId = (engines uid).tracker.currentRoundId + 1
  symmetric : SymmetricKeys participants fun uid => (ctx uid).edgeKeys
  /-- The leader has the right identity keys on record, or none. -/
  known : ∀ uid ∈ participants, ∀ vk,
    ((ctx leader).knownKeys.lookup uid).bind (parseVerifyingKey prim) = some vk →
      vk = prim.verifyingKey (ctx uid).signingKey
  sender_mem : sender ∈ participants
  head : (engines sender).tracker.messageQueue.head? = some text
  others : ∀ uid ∈ participants, uid ≠ sender → (engines uid).tracker.messageQueue = []
  fits : (asBytes text).length ≤ 988

/-- The nodes, and a record of what has happened so far. -/
structure EngineNet where
  engines : String → RoundEngine
  sent : Outgoing
  /-- The messages that have been delivered, a repeated one again. -/
  delivered : Outgoing
  /-- The events of all nodes, in order. -/
  events : List (String × RoundEvent)

namespace EngineNet

/-- The texts that `uid` has extracted. -/
def extractions (net : EngineNet) (uid : String) : List String :=
  net.events.filterMap fun
    | (node, .messageExtracted _ text _) => if node = uid then some text else none
    | _ => none

/-- A message is delivered to its target. -/
def deliver (prim : Primitives) (ctx : String → RoundContext) (net : EngineNet) (env : CallEnv)
    (target : String) (msg : PeerMessage) : EngineNet :=
  let result := (net.engines target).handleIncoming prim env (ctx target) msg
  { engines := Function.update net.engines target result.engine
    sent := net.sent ++ result.outgoing
    delivered := net.delivered ++ [(target, msg)]
    events := net.events ++ result.event.toList.map fun event => (target, event) }

theorem engines_deliver (prim : Primitives) (ctx : String → RoundContext) (net : EngineNet)
    (env : CallEnv) (target : String) (msg : PeerMessage) (uid : String) :
    (net.deliver prim ctx env target msg).engines uid = if uid = target
      then ((net.engines target).handleIncoming prim env (ctx target) msg).engine
      else net.engines uid := Function.update_apply ..

/-- What a delivery adds to the extracted texts. -/
theorem extractions_deliver (prim : Primitives) (ctx : String → RoundContext) (net : EngineNet)
    (env : CallEnv) (target : String) (msg : PeerMessage) (uid : String) :
    (net.deliver prim ctx env target msg).extractions uid = net.extractions uid ++
      (((net.engines target).handleIncoming prim env (ctx target) msg).event.toList.filterMap fun
        | .messageExtracted _ text _ => if target = uid then some text else none
        | .messageReceived .. => none) := by
  simp only [extractions, deliver, List.filterMap_append, List.filterMap_map]
  congr 1
  refine List.filterMap_congr fun event _ => ?_
  cases event <;> rfl

end EngineNet

namespace EngineRound

variable {prim : Primitives} (round : EngineRound prim) (startEnv : CallEnv)

/-- What the leader's start of the round returns. -/
def started : EngineResult :=
  (round.engines round.leader).startRoundAsLeader prim startEnv (round.ctx round.leader)
    round.channel round.participants

/-- The leader has started the round. -/
def start : EngineNet where
  engines := Function.update round.engines round.leader (round.started startEnv).engine
  sent := (round.started startEnv).outgoing
  delivered := []
  events := []

/-- The nets after any deliveries before the deadline. Whatever has been sent can be delivered, in
any order and any number of times. -/
inductive Reachable : EngineNet → Prop
  | start : Reachable (round.start startEnv)
  | deliver {net : EngineNet} (env : CallEnv) {target : String} {msg : PeerMessage} :
      Reachable net → (target, msg) ∈ net.sent →
      env.checkedAt round.roundId < startEnv.now + maxRoundDeadlineSecs →
      Reachable (net.deliver prim round.ctx env target msg)

/-- The share of `uid` has reached the leader: its own when it starts the round, another one with a
message. -/
def Delivered (net : EngineNet) (uid : String) : Prop :=
  (uid = round.leader ∧ (round.started startEnv).computed.isSome = true) ∨
    ∃ share signature, (round.leader,
      .dcRoundShare round.channel round.roundId uid share signature) ∈ net.delivered

/-- What `uid` embeds in its share. -/
def message (uid : String) : Option Bytes :=
  if uid = round.sender then some (asBytes round.text) else none

/-- The share of `uid`. -/
def share (uid : String) : Option Bytes :=
  computeXorShareSecure prim round.roundId uid round.participants (round.message uid)
    defaultPayloadLen (round.ctx uid).edgeKeys

/-- What is sent in the round: the start, the shares, and the result. -/
inductive Sent : String × PeerMessage → Prop
  | start {uid : String} (huid : uid ∈ round.participants) :
      Sent (uid, .dcRoundStart round.channel round.roundId round.leader round.participants
        (min 30 maxRoundDeadlineSecs) defaultPayloadLen)
  | share {uid : String} {share : Bytes} (huid : uid ∈ round.participants)
      (hshare : round.share uid = some share) :
      Sent (round.leader, .dcRoundShare round.channel round.roundId uid share
        (signShare prim (round.ctx uid).signingKey round.channel round.roundId share))
  | result {uid : String} {payload : Bytes} (huid : uid ∈ round.participants)
      (hpayload : unpadMessage prim payload = some (asBytes round.text)) :
      Sent (uid, .dcRoundResult round.channel round.roundId payload [])

variable {round startEnv}

/-! ## What the nodes do -/

theorem head_queue {uid : String} (huid : uid ∈ round.participants) :
    (round.engines uid).tracker.messageQueue.head?.map asBytes = round.message uid := by
  unfold message
  split_ifs with hsender
  · rw [hsender, round.head]
    rfl
  · rw [round.others uid huid hsender]
    rfl

/-- A participant that has not seen the start answers it with its share. -/
theorem handleRoundStart_next {uid : String} (huid : uid ∈ round.participants)
    {result : EngineResult}
    (hresult : (round.engines uid).handleRoundStart prim (round.ctx uid) round.channel
      round.roundId round.leader round.participants defaultPayloadLen = result) :
    result.engine.tracker.currentRoundId = round.roundId ∧
      result.engine.collectors = (round.engines uid).collectors ∧ result.event = none ∧
      result.outgoing = (round.share uid).toList.map fun share => (round.leader,
        .dcRoundShare round.channel round.roundId uid share
          (signShare prim (round.ctx uid).signingKey round.channel round.roundId share)) := by
  have hshare : computeXorShareSecure prim round.roundId (round.engines uid).myUid
      round.participants ((round.engines uid).tracker.messageQueue.head?.map asBytes)
      defaultPayloadLen (round.ctx uid).edgeKeys = round.share uid := by
    rw [head_queue huid, round.myUid uid huid]
    rfl
  unfold RoundEngine.handleRoundStart RoundTracker.markSeen at hresult
  have hreturns : ¬ SharePanics (round.engines uid).myUid round.participants defaultPayloadLen :=
    fun hpanic => absurd hpanic.2.2 (by decide)
  rw [if_pos (round.counter uid huid)] at hresult
  simp only [RoundEngine.dequeueMessage_eq, hshare, if_neg hreturns] at hresult
  split at hresult
  next hnone =>
    subst hresult
    exact ⟨rfl, rfl, rfl, by simp [hnone]⟩
  next share hsome =>
    subst hresult
    exact ⟨rfl, rfl, rfl, by simp [hsome, round.myUid uid huid]⟩

/-- Whoever has seen the start ignores it. -/
theorem handleRoundStart_seen {e : RoundEngine} {ctx : RoundContext}
    (hseen : e.tracker.currentRoundId = round.roundId) :
    e.handleRoundStart prim ctx round.channel round.roundId round.leader round.participants
      defaultPayloadLen = { engine := e } := by
  have hne : round.roundId ≠ e.tracker.currentRoundId + 1 := by omega
  unfold RoundEngine.handleRoundStart RoundTracker.markSeen
  rw [if_neg hne]

/-- A result is received with the queued text. -/
theorem handleRoundResult_event {e : RoundEngine} {payload : Bytes}
    (hpayload : unpadMessage prim payload = some (asBytes round.text)) :
    e.handleRoundResult prim round.channel round.roundId payload =
      { engine := { e with tracker := (e.tracker.markSeen round.roundId).2 }
        event := some (.messageReceived round.channel round.text round.roundId) } := by
  unfold RoundEngine.handleRoundResult
  rw [hpayload]
  simp only [fromUtf8_asBytes, Option.getD_some]

theorem markSeen_of_seen {t : RoundTracker} (hseen : t.currentRoundId = round.roundId) :
    (t.markSeen round.roundId).2 = t := by
  have hne : round.roundId ≠ t.currentRoundId + 1 := by omega
  rw [RoundTracker.markSeen, if_neg hne]

/-- The leader's collector while the round is open. -/
structure Collecting (round : EngineRound prim) (startEnv : CallEnv) (c : RoundCollector) :
    Prop where
  wellFormed : c.WellFormed
  roundId_eq : c.roundId = round.roundId
  mem_participants : ∀ uid, uid ∈ c.participants ↔ uid ∈ round.participants
  payloadLen_eq : c.payloadLen = defaultPayloadLen
  deadline_eq : c.deadline = startEnv.now + maxRoundDeadlineSecs
  /-- Everybody's share is the one it has sent. -/
  stored : ∀ uid share, c.sharesReceived.lookup uid = some share → round.share uid = some share

/-- A share that is not stored yet is accepted. -/
theorem Collecting.submitShare {c : RoundCollector} (h : Collecting round startEnv c)
    {uid : String} {share : Bytes} (huid : uid ∈ round.participants)
    (hshare : round.share uid = some share) (hnew : uid ∉ c.sharesReceived) :
    ∃ c', c.submitShare uid share = .ok c' ∧ Collecting round startEnv c' ∧
      ∀ u, u ∈ c'.sharesReceived ↔ u = uid ∨ u ∈ c.sharesReceived := by
  have hlen : share.length = c.payloadLen := by
    rw [h.payloadLen_eq]
    exact (computeXorShareSecure_eq_some hshare).1
  have hok : c.submitShare uid share = .ok { c with
      sharesReceived := c.sharesReceived.insert uid share } :=
    RoundCollector.submitShare_eq_ok.mpr ⟨(h.mem_participants uid).mpr huid, hnew, hlen, rfl⟩
  refine ⟨_, hok, ⟨h.wellFormed.submitShare hok, h.roundId_eq, h.mem_participants,
    h.payloadLen_eq, h.deadline_eq, fun u s hs => ?_⟩, fun u => AList.mem_insert _⟩
  rw [HashMap.lookup_insert_ite] at hs
  split_ifs at hs with hu
  · rw [hu, ← Option.some.inj hs]
    exact hshare
  · exact h.stored u s hs

theorem Collecting.isComplete_eq_false {c : RoundCollector} (h : Collecting round startEnv c)
    {uid : String} (huid : uid ∈ round.participants) (hmissing : uid ∉ c.sharesReceived) :
    c.isComplete = false := by
  refine Bool.eq_false_of_not_eq_true fun hcomplete => hmissing ?_
  exact h.wellFormed.isComplete_iff.mp hcomplete uid ((h.mem_participants uid).mpr huid)

/-- A complete collector yields the queued text. -/
theorem Collecting.extract {c : RoundCollector} (h : Collecting round startEnv c)
    (hcomplete : c.isComplete = true) :
    ∃ payload, c.extractMessage = some payload ∧
      unpadMessage prim payload = some (asBytes round.text) := by
  have hlookup : ∀ uid ∈ round.participants,
      ∃ share, c.sharesReceived.lookup uid = some share ∧ round.share uid = some share := by
    intro uid huid
    have hmem := h.wellFormed.isComplete_iff.mp hcomplete uid ((h.mem_participants uid).mpr huid)
    obtain ⟨share, hshare⟩ := HashMap.mem_iff_exists_lookup.mp hmem
    exact ⟨share, hshare, h.stored uid share hshare⟩
  choose! share hstored hshare using hlookup
  have hfits := round.fits
  have hbind : c.extractMessage.bind (unpadMessage prim) = some (asBytes round.text) := by
    refine RoundCollector.unpad_extractMessage (fun _ => round.participants) round.message
      h.wellFormed round.nodup h.mem_participants round.symmetric (fun _ _ => List.Perm.refl _)
      ?_ hstored round.sender_mem (if_pos rfl) (fun uid _ hne => if_neg hne) ?_ ?_
    · rw [h.roundId_eq, h.payloadLen_eq]
      exact hshare
    · rw [h.payloadLen_eq, defaultPayloadLen]
      omega
    · omega
  exact Option.bind_eq_some_iff.mp hbind

/-- The leader does not refuse the signature of a share. -/
theorem badSignature_eq_false
    (hsign : ∀ key msg, prim.verify (prim.verifyingKey key) msg (prim.sign key msg) = true)
    {uid : String} (huid : uid ∈ round.participants) (share : Bytes) :
    RoundEngine.badSignature prim (round.ctx round.leader) round.channel round.roundId uid share
      (signShare prim (round.ctx uid).signingKey round.channel round.roundId share) = false := by
  unfold RoundEngine.badSignature
  split
  next vk hvk =>
    rw [round.known uid huid vk hvk, verifyShareSignature, signShare, hsign]
    rfl
  · rfl

/-- The outcomes of a share while the round is open. -/
inductive Taken (round : EngineRound prim) (startEnv : CallEnv) (e : RoundEngine)
    (c : RoundCollector) (uid : String) : EngineResult → Prop
  | duplicate (hmem : uid ∈ c.sharesReceived) : Taken round startEnv e c uid { engine := e }
  | stored {c' : RoundCollector} (hc' : Collecting round startEnv c')
      (hmem : ∀ u, u ∈ c'.sharesReceived ↔ u = uid ∨ u ∈ c.sharesReceived)
      (hopen : c'.isComplete = false) :
      Taken round startEnv e c uid
        { engine := { e with collectors := e.collectors.insert round.roundId c' } }
  | extracted {out : Outgoing}
      (hall : ∀ u ∈ round.participants, u = uid ∨ u ∈ c.sharesReceived)
      (hout : ∀ p ∈ out, round.Sent p) :
      Taken round startEnv e c uid
        { engine := { e with collectors := e.collectors.erase round.roundId }
          event := some (.messageExtracted round.channel round.text round.roundId)
          outgoing := out }

/-- A share is refused as a duplicate, or stored; the last one closes the round. -/
theorem handleRoundShare_taken
    (hsign : ∀ key msg, prim.verify (prim.verifyingKey key) msg (prim.sign key msg) = true)
    {e : RoundEngine} {c : RoundCollector} {env : CallEnv} {uid : String} {share : Bytes}
    (hc : e.collectors.lookup round.roundId = some c) (hopen : Collecting round startEnv c)
    (huid : uid ∈ round.participants) (hshare : round.share uid = some share)
    (hlive : env.checkedAt round.roundId < startEnv.now + maxRoundDeadlineSecs) :
    Taken round startEnv e c uid (e.handleRoundShare prim env (round.ctx round.leader)
      round.channel round.roundId uid share
      (signShare prim (round.ctx uid).signingKey round.channel round.roundId share)) := by
  unfold RoundEngine.handleRoundShare
  simp only [badSignature_eq_false hsign huid, Bool.false_eq_true, if_false, hc]
  -- a share that is there already is refused
  by_cases hmem : uid ∈ c.sharesReceived
  · have hrefused : c.submitShare uid share = .error s!"duplicate share from {uid}" := by
      simp [RoundCollector.submitShare, (hopen.mem_participants uid).mpr huid, hmem]
    rw [hrefused]
    exact .duplicate hmem
  · obtain ⟨c', hok, hc', hmem'⟩ := hopen.submitShare huid hshare hmem
    have hexpired : c'.isExpired (env.checkedAt round.roundId) = false := by
      simpa [RoundCollector.isExpired, hc'.deadline_eq] using hlive
    rw [hok]
    simp only [hexpired, Bool.or_false]
    split
    -- the last share completes the round, and its text is announced
    next hcomplete =>
      obtain ⟨payload, hextract, hunpad⟩ := hc'.extract hcomplete
      simp only [hextract, hunpad, fromUtf8_asBytes, Option.getD_some]
      refine .extracted (fun u hu => ?_) fun p hp => ?_
      · have hall := hc'.wellFormed.isComplete_iff.mp hcomplete u
          ((hc'.mem_participants u).mpr hu)
        exact (hmem' u).mp hall
      · obtain ⟨u, hu, rfl⟩ := List.mem_map.mp hp
        exact .result ((hc'.mem_participants u).mp (env.uidOrder.mem_visit.mp hu)) hunpad
    next hcomplete => exact .stored hc' hmem' (Bool.eq_false_of_not_eq_true hcomplete)

/-! ## What holds in every net -/

/-- The round is open, and the leader's collector holds the shares that have been delivered; or all
shares have been delivered, and the leader has extracted the text. -/
def LeaderInv (round : EngineRound prim) (startEnv : CallEnv) (net : EngineNet) : Prop :=
  (∃ c, (net.engines round.leader).collectors.lookup round.roundId = some c ∧
      Collecting round startEnv c ∧ c.isComplete = false ∧
      (∀ uid ∈ round.participants, uid ∈ c.sharesReceived ↔ round.Delivered startEnv net uid) ∧
      net.extractions round.leader = []) ∨
    ((net.engines round.leader).collectors.lookup round.roundId = none ∧
      (∀ uid ∈ round.participants, round.Delivered startEnv net uid) ∧
      net.extractions round.leader = [round.text])

structure Inv (round : EngineRound prim) (startEnv : CallEnv) (net : EngineNet) : Prop where
  sent : ∀ p ∈ net.sent, round.Sent p
  /-- A node is as it was, or has seen the round. -/
  nodes : ∀ uid ∈ round.participants, net.engines uid = round.engines uid ∨
    (net.engines uid).tracker.currentRoundId = round.roundId
  leader_seen : (net.engines round.leader).tracker.currentRoundId = round.roundId
  received : ∀ uid channel text id, (uid, .messageReceived channel text id) ∈ net.events →
    channel = round.channel ∧ text = round.text ∧ id = round.roundId
  leader : LeaderInv round startEnv net

theorem delivered_deliver_iff {net : EngineNet} {env : CallEnv} {target : String}
    {msg : PeerMessage} {uid : String} :
    round.Delivered startEnv (net.deliver prim round.ctx env target msg) uid ↔
      round.Delivered startEnv net uid ∨ target = round.leader ∧ ∃ share signature,
        msg = .dcRoundShare round.channel round.roundId uid share signature := by
  simp only [Delivered, EngineNet.deliver, List.mem_append, List.mem_singleton, Prod.mk.injEq]
  constructor
  · rintro (hown | ⟨share, signature, hmem | ⟨rfl, rfl⟩⟩)
    · exact Or.inl (Or.inl hown)
    · exact Or.inl (Or.inr ⟨share, signature, hmem⟩)
    · exact Or.inr ⟨rfl, share, signature, rfl⟩
  · rintro ((hown | ⟨share, signature, hmem⟩) | ⟨rfl, share, signature, rfl⟩)
    · exact Or.inl hown
    · exact Or.inr ⟨share, signature, Or.inl hmem⟩
    · exact Or.inr ⟨share, signature, Or.inr ⟨rfl, rfl⟩⟩

section Deliver

variable {net : EngineNet} {env : CallEnv} {target : String} {msg : PeerMessage}
  {result : EngineResult}

/-- A delivery, up to what it means for the leader. -/
theorem Inv.deliver (h : Inv round startEnv net)
    (hresult : (net.engines target).handleIncoming prim env (round.ctx target) msg = result)
    (hsent : ∀ p ∈ result.outgoing, round.Sent p)
    (hseen : result.engine = net.engines target ∨
      result.engine.tracker.currentRoundId = round.roundId)
    (hreceived : ∀ channel text id, result.event = some (.messageReceived channel text id) →
      channel = round.channel ∧ text = round.text ∧ id = round.roundId)
    (hleader : LeaderInv round startEnv (net.deliver prim round.ctx env target msg)) :
    Inv round startEnv (net.deliver prim round.ctx env target msg) := by
  -- only the target changes, and it stays or moves to the round
  have hnode : ∀ uid, (net.deliver prim round.ctx env target msg).engines uid = net.engines uid ∨
      ((net.deliver prim round.ctx env target msg).engines uid).tracker.currentRoundId =
        round.roundId := by
    intro uid
    rw [EngineNet.engines_deliver, hresult]
    split_ifs with heq
    · rw [heq]
      exact hseen
    · exact Or.inl rfl
  refine ⟨fun p hp => ?_, fun uid huid => ?_, ?_, fun uid channel text id hmem => ?_, hleader⟩
  · rw [EngineNet.deliver, hresult] at hp
    rcases List.mem_append.mp hp with hp | hp
    · exact h.sent p hp
    · exact hsent p hp
  · rcases hnode uid with hsame | hseen
    · rw [hsame]
      exact h.nodes uid huid
    · exact Or.inr hseen
  · rcases hnode round.leader with hsame | hseen
    · rw [hsame]
      exact h.leader_seen
    · exact hseen
  · rw [EngineNet.deliver, hresult] at hmem
    rcases List.mem_append.mp hmem with hmem | hmem
    · exact h.received uid channel text id hmem
    · obtain ⟨event, hevent, heq⟩ := List.mem_map.mp hmem
      obtain ⟨-, rfl⟩ := Prod.mk.inj heq
      exact hreceived channel text id (Option.mem_toList.mp hevent)

/-- A message other than a share leaves the leader's round as it is. -/
theorem LeaderInv.deliver (h : LeaderInv round startEnv net)
    (hresult : (net.engines target).handleIncoming prim env (round.ctx target) msg = result)
    (hcollectors : result.engine.collectors = (net.engines target).collectors)
    (hevent : ∀ channel text id, result.event ≠ some (.messageExtracted channel text id))
    (hmsg : ∀ uid share signature,
      msg ≠ .dcRoundShare round.channel round.roundId uid share signature) :
    LeaderInv round startEnv (net.deliver prim round.ctx env target msg) := by
  -- the invariant speaks of the collector, the extractions and the delivered shares
  have hlookup : ((net.deliver prim round.ctx env target msg).engines round.leader).collectors =
      (net.engines round.leader).collectors := by
    rw [EngineNet.engines_deliver, hresult]
    split_ifs with heq
    · rw [hcollectors, heq]
    · rfl
  have hextractions : (net.deliver prim round.ctx env target msg).extractions round.leader =
      net.extractions round.leader := by
    rw [EngineNet.extractions_deliver, hresult]
    cases hres : result.event with
    | none => simp
    | some event =>
      cases event with
      | messageReceived channel text id => simp
      | messageExtracted channel text id => exact absurd hres (hevent channel text id)
  have hdelivered : ∀ uid, round.Delivered startEnv (net.deliver prim round.ctx env target msg)
      uid ↔ round.Delivered startEnv net uid := by
    intro uid
    rw [delivered_deliver_iff]
    refine or_iff_left ?_
    rintro ⟨-, share, signature, rfl⟩
    exact hmsg uid share signature rfl
  unfold LeaderInv
  simp only [hlookup, hextractions, hdelivered]
  exact h

/-- A start is answered or ignored. -/
theorem Inv.deliver_start (h : Inv round startEnv net) (htarget : target ∈ round.participants) :
    Inv round startEnv (net.deliver prim round.ctx env target (.dcRoundStart round.channel
      round.roundId round.leader round.participants (min 30 maxRoundDeadlineSecs)
      defaultPayloadLen)) := by
  by_cases hseen : (net.engines target).tracker.currentRoundId = round.roundId
  · have hresult := @handleRoundStart_seen prim round (net.engines target) (round.ctx target) hseen
    refine h.deliver hresult (by simp) (Or.inl rfl) (by simp) ?_
    exact h.leader.deliver hresult rfl (by simp) (by simp)
  · have hsame := (h.nodes target htarget).resolve_right hseen
    obtain ⟨result, hresult⟩ : ∃ result, (net.engines target).handleRoundStart prim
      (round.ctx target) round.channel round.roundId round.leader round.participants
      defaultPayloadLen = result := ⟨_, rfl⟩
    obtain ⟨hnext, hcollectors, hevent, hout⟩ := handleRoundStart_next htarget (hsame ▸ hresult)
    refine h.deliver hresult (fun p hp => ?_) (Or.inr hnext) (by simp [hevent]) ?_
    · rw [hout] at hp
      obtain ⟨share, hshare, rfl⟩ := List.mem_map.mp hp
      exact .share htarget (Option.mem_toList.mp hshare)
    · exact h.leader.deliver hresult (hsame ▸ hcollectors) (by simp [hevent]) (by simp)

/-- A result is received. -/
theorem Inv.deliver_result (h : Inv round startEnv net) (htarget : target ∈ round.participants)
    {payload : Bytes} (hpayload : unpadMessage prim payload = some (asBytes round.text)) :
    Inv round startEnv (net.deliver prim round.ctx env target
      (.dcRoundResult round.channel round.roundId payload [])) := by
  have hresult := @handleRoundResult_event prim round (net.engines target) payload hpayload
  refine h.deliver hresult (by simp) ?_ ?_ ?_
  · by_cases hseen : (net.engines target).tracker.currentRoundId = round.roundId
    · rw [markSeen_of_seen hseen]
      exact Or.inl rfl
    · have hsame := (h.nodes target htarget).resolve_right hseen
      refine Or.inr ?_
      rw [hsame, RoundTracker.markSeen, if_pos (round.counter target htarget)]
  · rintro channel text id heq
    cases heq
    exact ⟨rfl, rfl, rfl⟩
  · exact h.leader.deliver hresult rfl (by simp) (by simp)

/-- The leader's round after a share has been taken. -/
theorem LeaderInv.taken (h : LeaderInv round startEnv net) {c : RoundCollector} {uid : String}
    {share signature : Bytes}
    (hresult : (net.engines round.leader).handleIncoming prim env (round.ctx round.leader)
      (.dcRoundShare round.channel round.roundId uid share signature) = result)
    (hc : (net.engines round.leader).collectors.lookup round.roundId = some c)
    (htaken : Taken round startEnv (net.engines round.leader) c uid result) :
    LeaderInv round startEnv (net.deliver prim round.ctx env round.leader
      (.dcRoundShare round.channel round.roundId uid share signature)) := by
  have hengine := net.engines_deliver prim round.ctx env round.leader
    (.dcRoundShare round.channel round.roundId uid share signature) round.leader
  have hextractions := net.extractions_deliver prim round.ctx env round.leader
    (.dcRoundShare round.channel round.roundId uid share signature) round.leader
  rw [hresult] at hengine hextractions
  rw [if_pos rfl] at hengine
  have hdelivered : ∀ u, round.Delivered startEnv (net.deliver prim round.ctx env round.leader
      (.dcRoundShare round.channel round.roundId uid share signature)) u ↔
        round.Delivered startEnv net u ∨ u = uid := by
    intro u
    rw [delivered_deliver_iff]
    simp [eq_comm]
  -- the round is open, since there is a collector
  obtain ⟨c₀, hc₀, hcollecting, hincomplete, hstored, hnone⟩ | ⟨hgone, -⟩ := h
  · obtain rfl := Option.some.inj (hc.symm.trans hc₀)
    unfold LeaderInv
    rw [hengine, hextractions, hnone]
    simp only [hdelivered]
    cases htaken with
    | duplicate hmem =>
      refine Or.inl ⟨c, hc, hcollecting, hincomplete, fun u hu => ?_, rfl⟩
      rw [hstored u hu]
      refine ⟨Or.inl, fun hu' => hu'.elim (fun hu' => hu') ?_⟩
      rintro rfl
      exact (hstored u hu).mp hmem
    | stored hc' hmem hopen =>
      refine Or.inl ⟨_, AList.lookup_insert _, hc', hopen, fun u hu => ?_, rfl⟩
      rw [hmem, hstored u hu, or_comm]
    | extracted hall hout =>
      refine Or.inr ⟨AList.lookup_erase _ _, fun u hu => ?_, by simp⟩
      rw [← hstored u hu, or_comm]
      exact hall u hu
  · simp [hgone] at hc

/-- A share is taken by the leader, or comes too late. -/
theorem Inv.deliver_share (h : Inv round startEnv net)
    (hsign : ∀ key msg, prim.verify (prim.verifyingKey key) msg (prim.sign key msg) = true)
    {uid : String} {share : Bytes} (huid : uid ∈ round.participants)
    (hshare : round.share uid = some share)
    (hlive : env.checkedAt round.roundId < startEnv.now + maxRoundDeadlineSecs) :
    Inv round startEnv (net.deliver prim round.ctx env round.leader
      (.dcRoundShare round.channel round.roundId uid share
        (signShare prim (round.ctx uid).signingKey round.channel round.roundId share))) := by
  obtain ⟨result, hresult⟩ : ∃ result, (net.engines round.leader).handleIncoming prim env
      (round.ctx round.leader) (.dcRoundShare round.channel round.roundId uid share
        (signShare prim (round.ctx uid).signingKey round.channel round.roundId share)) = result :=
    ⟨_, rfl⟩
  obtain ⟨c, hc, hcollecting, -⟩ | ⟨hgone, hall, hextracted⟩ := h.leader
  · have htaken : Taken round startEnv (net.engines round.leader) c uid result := by
      rw [← hresult]
      exact handleRoundShare_taken hsign hc hcollecting huid hshare hlive
    have hleader := h.leader.taken hresult hc htaken
    cases htaken with
    | duplicate hmem => exact h.deliver hresult (by simp) (Or.inl rfl) (by simp) hleader
    | stored hc' hmem hopen =>
      exact h.deliver hresult (by simp) (Or.inr h.leader_seen) (by simp) hleader
    | extracted hall hout => exact h.deliver hresult hout (Or.inr h.leader_seen) (by simp) hleader
  -- the round is closed, and there is no collector that could take the share
  · have hignored : result = { engine := net.engines round.leader } := by
      rw [← hresult, RoundEngine.handleIncoming, RoundEngine.handleRoundShare,
        badSignature_eq_false hsign huid, hgone]
      rfl
    subst hignored
    refine h.deliver hresult (by simp) (Or.inl rfl) (by simp) (Or.inr ⟨?_, fun u hu => ?_, ?_⟩)
    · rw [EngineNet.engines_deliver, if_pos rfl, hresult]
      exact hgone
    · exact delivered_deliver_iff.mpr (Or.inl (hall u hu))
    · rw [EngineNet.extractions_deliver, hextracted, hresult]
      rfl

end Deliver

/-! ## The start of the round -/

/-- The leader's collector with no shares in it. -/
def emptyCollector (round : EngineRound prim) (startEnv : CallEnv) : RoundCollector :=
  RoundCollector.new round.channel round.roundId round.participants (min 30 maxRoundDeadlineSecs)
    defaultPayloadLen startEnv.now

theorem collecting_empty (round : EngineRound prim) (startEnv : CallEnv) :
    Collecting round startEnv (round.emptyCollector startEnv) where
  wellFormed := RoundCollector.wellFormed_new ..
  roundId_eq := rfl
  mem_participants _ := List.mem_dedup
  payloadLen_eq := rfl
  deadline_eq := rfl
  stored uid share h := by simp [emptyCollector, RoundCollector.new] at h

/-- What the leader's start does: it advances the counter, and puts its own share into a new
collector if the share can be computed. -/
theorem started_spec :
    (round.started startEnv).engine.tracker.currentRoundId = round.roundId ∧
      (round.started startEnv).computed.isSome = (round.share round.leader).isSome ∧
      (∀ p ∈ (round.started startEnv).outgoing, round.Sent p) ∧
      (round.started startEnv).engine.collectors.lookup round.roundId =
        some (match round.share round.leader with
          | some share => (round.emptyCollector startEnv).trySubmit round.leader share
          | none => round.emptyCollector startEnv) := by
  have hcounter := round.counter round.leader round.leader_mem
  have huid := round.myUid round.leader round.leader_mem
  unfold started RoundEngine.startRoundAsLeader
  simp only [RoundEngine.dequeueMessage_eq, RoundTracker.nextRound, ← hcounter, huid,
    head_queue round.leader_mem]
  refine ⟨trivial, ?_, ?_, AList.lookup_insert _⟩
  · simp [share]
  · rintro p hp
    obtain ⟨uid, hmem, rfl⟩ := List.mem_map.mp hp
    exact .start hmem

theorem engines_start_leader :
    (round.start startEnv).engines round.leader = (round.started startEnv).engine :=
  Function.update_self ..

/-- Right after the start the leader's collector holds its own share at most. -/
theorem leaderInv_start : LeaderInv round startEnv (round.start startEnv) := by
  obtain ⟨-, hcomputed, -, hlookup⟩ := @started_spec prim round startEnv
  have hdelivered : ∀ uid, round.Delivered startEnv (round.start startEnv) uid ↔
      uid = round.leader ∧ (round.share round.leader).isSome = true := by
    intro uid
    simp [Delivered, start, hcomputed]
  unfold LeaderInv
  rw [engines_start_leader, hlookup]
  simp only [hdelivered]
  cases hshare : round.share round.leader with
  | none =>
    refine Or.inl ⟨_, rfl, collecting_empty round startEnv, ?_, ?_, rfl⟩
    · exact (collecting_empty round startEnv).isComplete_eq_false round.leader_mem
        (AList.notMem_empty _)
    · simp [emptyCollector, RoundCollector.new]
  | some share =>
    obtain ⟨c, hok, hc, hmem⟩ := (collecting_empty round startEnv).submitShare round.leader_mem
      hshare (AList.notMem_empty _)
    have hmem' : ∀ uid, uid ∈ c.sharesReceived ↔ uid = round.leader := fun uid =>
      (hmem uid).trans (or_iff_left (AList.notMem_empty uid))
    have hc' : (round.emptyCollector startEnv).trySubmit round.leader share = c := by
      rw [RoundCollector.trySubmit, hok]
    -- a share is computed only if there is another participant, whose share is still missing
    have hlen := (computeXorShareSecure_isSome.mp (Option.isSome_of_eq_some hshare)).1
    obtain ⟨other, hother, hne⟩ := exists_other round.nodup hlen round.leader
    refine Or.inl ⟨c, congrArg some hc', hc, ?_, fun uid _ => ?_, rfl⟩
    · exact hc.isComplete_eq_false hother fun h => hne ((hmem' other).mp h)
    · rw [hmem' uid]
      simp

/-- Everything that holds at the start. -/
theorem inv_start : Inv round startEnv (round.start startEnv) := by
  obtain ⟨hcounter, -, hsent, -⟩ := @started_spec prim round startEnv
  have hseen : ((round.start startEnv).engines round.leader).tracker.currentRoundId =
      round.roundId := by
    rw [engines_start_leader]
    exact hcounter
  refine ⟨hsent, fun uid _ => ?_, hseen, fun uid channel text id h => ?_, leaderInv_start⟩
  · by_cases heq : uid = round.leader
    · rw [heq]
      exact Or.inr hseen
    · exact Or.inl (Function.update_of_ne heq ..)
  · simp [start] at h

/-- Every delivery keeps what holds. -/
theorem Reachable.inv
    (hsign : ∀ key msg, prim.verify (prim.verifyingKey key) msg (prim.sign key msg) = true)
    {net : EngineNet} (h : round.Reachable startEnv net) : Inv round startEnv net := by
  induction h with
  | start => exact inv_start
  | deliver env _ hmem hlive ih =>
    have hsent := ih.sent _ hmem
    cases hsent with
    | start huid => exact ih.deliver_start huid
    | share huid hshare => exact ih.deliver_share hsign huid hshare hlive
    | result huid hpayload => exact ih.deliver_result huid hpayload

/-- Agreement on the text of a round. Whatever the network delivers before the deadline, the leader
extracts at most one text. It extracts one if and only if all participants' shares have been
delivered, the text is the queued one, and it is the text of every result that is received. -/
theorem agreement
    (hsign : ∀ key msg, prim.verify (prim.verifyingKey key) msg (prim.sign key msg) = true)
    {net : EngineNet} (h : round.Reachable startEnv net) :
    (net.extractions round.leader).length ≤ 1 ∧
      (∀ text ∈ net.extractions round.leader, text = round.text) ∧
      ((∀ uid ∈ round.participants, round.Delivered startEnv net uid) ↔
        net.extractions round.leader = [round.text]) ∧
      ∀ uid channel text id, (uid, .messageReceived channel text id) ∈ net.events →
        text = round.text := by
  have hinv := h.inv hsign
  refine ⟨?_, ?_, ?_, fun uid channel text id hmem => (hinv.received uid channel text id hmem).2.1⟩
  · rcases hinv.leader with ⟨c, -, -, -, -, hnone⟩ | ⟨-, -, hone⟩
    · simp [hnone]
    · simp [hone]
  · rcases hinv.leader with ⟨c, -, -, -, -, hnone⟩ | ⟨-, -, hone⟩
    · simp [hnone]
    · simp [hone]
  · rcases hinv.leader with ⟨c, -, hc, hopen, hstored, hnone⟩ | ⟨-, hall, hone⟩
    -- a collector that holds all shares would be complete
    · simp only [hnone, List.nil_eq, reduceCtorEq, iff_false]
      intro hall
      have hcomplete : c.isComplete = true := hc.wellFormed.isComplete_iff.mpr fun uid huid =>
        (hstored uid ((hc.mem_participants uid).mp huid)).mpr
          (hall uid ((hc.mem_participants uid).mp huid))
      simp [hcomplete] at hopen
    · exact iff_of_true hall hone

/-- One key for the edge between Alice and Bob. -/
def edgeOfTwo : HashMap String Bytes32 :=
  HashMap.ofPairs [("alice", .replicate 32 2), ("bob", .replicate 32 2)]

theorem lookup_edgeOfTwo :
    ∀ uid ∈ ["alice", "bob"], edgeOfTwo.lookup uid = some (.replicate 32 2) := by
  decide

/-- Alice leads a round with Bob, who has a queued text. -/
def aliceAndBob : EngineRound .const where
  channel := "#g"
  leader := "alice"
  participants := ["alice", "bob"]
  engines uid := if uid = "bob" then (RoundEngine.new uid).queueMessage "hi" else .new uid
  ctx uid := ⟨uid, .replicate 32 1, edgeOfTwo, ∅⟩
  roundId := 1
  sender := "bob"
  text := "hi"
  nodup := by decide
  leader_mem := by decide
  myUid := by decide
  counter := by decide
  symmetric i hi j hj _ := ⟨.replicate 32 2, lookup_edgeOfTwo j hj, lookup_edgeOfTwo i hi⟩
  known uid _ vk h := by simp at h
  sender_mem := by decide
  head := rfl
  others := by decide
  fits := by decide

/-- Both can compute their shares. -/
theorem exists_share_aliceAndBob (uid : String) (huid : uid ∈ ["alice", "bob"]) :
    ∃ share, aliceAndBob.share uid = some share := by
  refine Option.isSome_iff_exists.mp (computeXorShareSecure_isSome.mpr
    ⟨by decide, huid, fun other hother _ => ?_, fun msg hmsg => ?_⟩)
  · exact HashMap.mem_iff_exists_lookup.mpr ⟨_, lookup_edgeOfTwo other hother⟩
  · rw [message] at hmsg
    split_ifs at hmsg
    rw [← Option.some.inj hmsg]
    decide

/-- Bob answers the start, and Alice extracts his text from the two shares. -/
theorem agreement_two_nodes : ∃ net, aliceAndBob.Reachable .still net ∧
    (∀ uid ∈ ["alice", "bob"], aliceAndBob.Delivered .still net uid) ∧
      net.extractions "alice" = ["hi"] := by
  obtain ⟨own, hown⟩ := exists_share_aliceAndBob "alice" (by decide)
  obtain ⟨share, hshare⟩ := exists_share_aliceAndBob "bob" (by decide)
  have hstart : aliceAndBob.Reachable .still _ := .start
  have hanswered := Reachable.deliver .still hstart
    (List.mem_map.mpr ⟨"bob", by decide, rfl⟩) (by decide)
  obtain ⟨-, -, -, hout⟩ := @handleRoundStart_next .const aliceAndBob "bob" (by decide) _ rfl
  have hdelivered := Reachable.deliver .still hanswered
    (List.mem_append_right _ (hout ▸ List.mem_map.mpr ⟨share, by simp [hshare], rfl⟩)) (by decide)
  obtain ⟨net, hnet, hall⟩ : ∃ net, aliceAndBob.Reachable .still net ∧
      ∀ uid ∈ aliceAndBob.participants, aliceAndBob.Delivered .still net uid := by
    refine ⟨_, hdelivered, fun uid huid => ?_⟩
    obtain rfl | huid := List.mem_cons.mp huid
    · refine Or.inl ⟨rfl, ?_⟩
      rw [started_spec.2.1]
      exact Option.isSome_of_eq_some hown
    · rw [List.mem_singleton.mp huid]
      exact Or.inr ⟨share, _, List.mem_append_right _ (List.mem_singleton_self _)⟩
  exact ⟨net, hnet, hall, (agreement (fun _ _ => rfl) hnet).2.2.1.mp hall⟩

end EngineRound

end ChronoShift
