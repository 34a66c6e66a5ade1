import ChronoShift.DcNet.BridgeRuns
import ChronoShift.DcNet.Recovery

/-!
# Complete logging

What a snapshot records of a bridge: our uid, the address and trust of every friend, the topic and
the participants of every channel. A call with log entries changes it as replaying its entries
would. Topics, trust levels that follow the reputations, and broadcasts have no entry, so what they
change is not in the log.

* `Recorded`: what a snapshot records;
* `F2fDcNetBridge.complete_logging_iff`: which operations the log covers.
-/

namespace ChronoShift

open ToMathlib

/-- What a snapshot records: the social state and the topics of the channels. -/
@[ext]
structure Recorded where
  social : Social
  topics : String → Option String

/-- What the log makes of the topics: a new channel has none, and no operation sets one. -/
def topicsApply (topics : String → Option String) : WalOperation → String → Option String
  | .createChannel name => Function.update topics name (some ((topics name).getD ""))
  | _ => topics

/-- What a loaded snapshot stands for. Later records replace earlier ones. -/
def SocialSnapshot.recorded (snap : SocialSnapshot) : Recorded where
  social := snap.social
  topics name := (HashMap.ofPairs (snap.channels.map fun c => (c.name, c.topic))).lookup name

namespace Bridge

variable {prim : Primitives} {b : Bridge}

/-- The topics of the channels. -/
def topics (b : Bridge) (name : String) : Option String :=
  (b.channels.lookup name).map ChannelInfo.topic

/-- What a snapshot of the bridge records. -/
def recorded (b : Bridge) : Recorded := ⟨b.social, b.topics⟩

/-! ## Replay -/

/-- A join sets no topic. -/
theorem topics_joinOne {b' : Bridge} {channel uid : String}
    (h : b.joinOne channel uid = some b') : b'.topics = b.topics := by
  obtain ⟨ch, group, f, hch, -, -, -, -, -, rfl⟩ := joinOne_eq_some h
  funext name
  rw [topics, topics, HashMap.lookup_insert_ite]
  split
  next heq => rw [heq, hch, Option.map_some, Option.map_some]
  next => rfl

/-- A channel that keeps its topic. -/
theorem topics_modify {channel : String} {change : ChannelInfo → ChannelInfo}
    (h : ∀ ch, (change ch).topic = ch.topic) (groups : HashMap String DcGroup) :
    { b with
      channels := HashMap.modify b.channels channel change, groups := groups }.topics =
        b.topics := by
  funext name
  exact HashMap.map_lookup_modify b.channels channel name h

/-- Who leaves sets no topic. -/
theorem topics_removeParticipant (channel uid : String) :
    (b.removeParticipant prim channel uid).topics = b.topics :=
  topics_modify (by intro ch; rfl) _

/-- A new channel has an empty topic. -/
theorem topics_createChannelNoLog (name : String) :
    (b.createChannelNoLog prim name).topics = topicsApply b.topics (.createChannel name) := by
  funext n
  unfold createChannelNoLog
  rw [topicsApply, Function.update_apply]
  by_cases h : name ∈ b.channels
  · rw [if_pos h]
    split
    next heq =>
      obtain ⟨ch, hch⟩ := HashMap.mem_iff_exists_lookup.mp h
      rw [heq, topics, hch, Option.map_some, Option.getD_some]
    next => rfl
  · rw [if_neg h]
    have hnone : b.topics name = none := by rw [topics, AList.lookup_eq_none.mpr h, Option.map_none]
    rw [topics, HashMap.lookup_insert_ite, hnone]
    split <;> rfl

/-- A replayed operation acts on the topics. -/
theorem topics_applyOpNoLog (fresh : Bytes32) (op : WalOperation) :
    (b.applyOpNoLog prim fresh op).topics = topicsApply b.topics op := by
  cases op with
  | updateEdgeKey uid keyHex =>
    rw [applyOpNoLog]
    split <;> rfl
  | createChannel name => exact topics_createChannelNoLog name
  | joinChannel channel uid =>
    rw [applyOpNoLog, joinChannelNoLog]
    split
    next b' hjoin => exact topics_joinOne hjoin
    next => rfl
  | leaveChannel channel uid =>
    rw [applyOpNoLog]
    split_ifs
    · exact topics_removeParticipant channel b.myUid
    · exact topics_removeParticipant channel uid
    · rfl
  | _ => rfl

/-- Replay leads to the same record, whatever keys are drawn. -/
theorem recorded_applyOps_congr (hb : b.WellFormed) (fresh fresh' : ℕ → Bytes32)
    (ops : List WalOperation) :
    (b.applyOps prim fresh ops).recorded = (b.applyOps prim fresh' ops).recorded := by
  have htopics : ∀ (b : Bridge) (fresh : ℕ → Bytes32),
      (b.applyOps prim fresh ops).topics = ops.foldl topicsApply b.topics := by
    induction ops with
    | nil => exact fun _ _ => rfl
    | cons op ops ih =>
      intro b fresh
      rw [applyOps, ih, topics_applyOpNoLog]
      rfl
  rw [recorded, recorded, social_applyOps hb, social_applyOps hb, htopics, htopics]

/-- A replayed operation changes the record unless it is redundant. -/
theorem recorded_applyOpNoLog_iff (hb : b.WellFormed) (fresh : Bytes32) (op : WalOperation) :
    (b.applyOpNoLog prim fresh op).recorded = b.recorded ↔ b.social.Redundant op := by
  rw [recorded, recorded, social_applyOpNoLog hb, topics_applyOpNoLog, Recorded.mk.injEq,
    Social.apply_eq_self_iff]
  refine and_iff_left_of_imp fun hredundant => ?_
  cases op with
  | createChannel name =>
    -- the channel exists, so it keeps its topic
    refine Function.update_eq_self_iff.mpr ?_
    obtain ⟨ps, hps⟩ := Option.ne_none_iff_exists'.mp hredundant
    obtain ⟨ch, hch, -⟩ := Option.map_eq_some_iff.mp hps
    rw [topics, hch, Option.map_some, Option.getD_some]
  | _ => rfl

/-! ## Snapshots -/

/-- A restored channel has the topic of its record. -/
theorem topics_restoreChannel (b : Bridge) (c : ChannelRecord) :
    (b.restoreChannel prim c).topics = Function.update b.topics c.name (some c.topic) := by
  have hcreate := congrFun (@topics_createChannelNoLog prim b c.name)
  funext n
  have hn := hcreate n
  rw [topicsApply, Function.update_apply, topics] at hn
  show ((HashMap.modify _ c.name _).lookup n).map ChannelInfo.topic = _
  rw [HashMap.lookup_modify, Function.update_apply]
  split
  next h =>
    -- the channel exists once it has been created
    rw [if_pos h] at hn
    obtain ⟨ch, hch, -⟩ := Option.map_eq_some_iff.mp hn
    rw [hch]
    rfl
  next h =>
    rw [if_neg h] at hn
    exact hn

/-- The last record of a channel decides on its topic. -/
theorem topics_foldl_restoreChannel (b : Bridge) (records : List ChannelRecord)
    (m : HashMap String String) (hm : ∀ n, b.topics n = m.lookup n) (n : String) :
    (records.foldl (fun b c => b.restoreChannel prim c) b).topics n =
      ((records.map fun c => (c.name, c.topic)).foldl (fun m p => m.insert p.1 p.2)
        m).lookup n := by
  induction records generalizing b m with
  | nil => exact hm n
  | cons c records ih =>
    rw [List.foldl_cons, List.map_cons, List.foldl_cons]
    refine ih _ _ fun n => ?_
    rw [topics_restoreChannel, Function.update_apply, HashMap.lookup_insert_ite, hm]

/-- A bridge that is rebuilt from a snapshot records what the snapshot stands for. -/
theorem recorded_applySnapshot (b : Bridge) (fresh : ℕ → Bytes32) (snap : SocialSnapshot) :
    (b.applySnapshot prim fresh snap).recorded = snap.recorded := by
  rw [recorded, social_applySnapshot]
  exact Recorded.ext rfl (funext fun n =>
    topics_foldl_restoreChannel _ snap.channels ∅ (fun _ => rfl) n)

/-! ## Operations without an entry -/

/-- The rest of a channel and its group are not recorded. -/
theorem recorded_modifyChannel (b : Bridge) (channel : String)
    (change : ChannelInfo → ChannelInfo)
    (h : ∀ ch, (change ch).topic = ch.topic ∧ (change ch).participants = ch.participants)
    (groups : HashMap String DcGroup) :
    { b with
      channels := HashMap.modify b.channels channel change
      groups := groups }.recorded = b.recorded := by
  refine Recorded.ext (Social.ext rfl rfl (funext fun name => ?_))
    (topics_modify (fun ch => (h ch).1) groups)
  exact HashMap.map_lookup_modify b.channels channel name fun ch => (h ch).2

/-- A topic that is set changes what is on record, unless it was the topic before. -/
theorem recorded_setTopic_iff (channel topic : String) :
    (b.setTopic channel topic).recorded = b.recorded ↔
      ∀ ch, b.channels.lookup channel = some ch → ch.topic = topic := by
  have hsocial : (b.setTopic channel topic).social = b.social := by
    refine Social.ext rfl rfl (funext fun name => ?_)
    exact HashMap.map_lookup_modify b.channels channel name fun ch => rfl
  have htopics (name : String) : (b.setTopic channel topic).topics name =
      if name = channel then (b.topics name).map fun _ => topic else b.topics name := by
    show ((HashMap.modify b.channels channel _).lookup name).map ChannelInfo.topic = _
    rw [HashMap.lookup_modify]
    split
    · cases hch : b.channels.lookup name <;> simp [topics, hch]
    · rfl
  -- what is on record differs in the topics only
  rw [recorded, recorded, hsocial, Recorded.mk.injEq]
  refine (and_iff_right rfl).trans ⟨fun h ch hch => ?_, fun h => funext fun name => ?_⟩
  · have hname := congrFun h channel
    rw [htopics, if_pos rfl, topics, hch] at hname
    exact (Option.some.inj hname).symm
  · rw [htopics]
    split
    next heq =>
      subst heq
      cases hch : b.channels.lookup name with
      | none => rw [topics, hch]; rfl
      | some ch => rw [topics, hch, Option.map_some, Option.map_some, h ch hch]
    next => rfl

/-- Changed trust levels show in the record. -/
theorem recorded_friends_iff {friends : HashMap String F2fFriend} {level : F2fFriend → UInt8}
    (h : ∀ uid, friends.lookup uid =
      (b.friends.lookup uid).map fun f => { f with trustLevel := level f }) :
    { b with friends := friends }.recorded = b.recorded ↔
      ∀ uid f, b.friends.lookup uid = some f → f.trustLevel = level f := by
  have hrecord : { b with friends := friends }.recorded = b.recorded ↔
      ∀ uid, (b.friends.lookup uid).map (fun f => (f.transportAddress, level f)) =
        (b.friends.lookup uid).map fun f => (f.transportAddress, f.trustLevel) := by
    have hfriends (uid : String) : { b with friends := friends }.social.friends uid =
        (b.friends.lookup uid).map fun f => (f.transportAddress, level f) := by
      show (friends.lookup uid).map _ = _
      rw [h, Option.map_map]
      rfl
    constructor
    · intro heq uid
      rw [← hfriends]
      exact congrFun (congrArg (fun r => r.social.friends) heq) uid
    · intro heq
      exact Recorded.ext (Social.ext rfl (funext fun uid => (hfriends uid).trans (heq uid)) rfl) rfl
  rw [hrecord]
  -- the address stays, so the records differ in the trust only
  refine forall_congr' fun uid => ?_
  cases b.friends.lookup uid with
  | none => exact iff_of_true rfl nofun
  | some f =>
    rw [Option.map_some, Option.map_some, Option.some.injEq, Prod.mk.injEq]
    simp only [true_and, Option.some.injEq, forall_eq']
    exact eq_comm

end Bridge

namespace F2fDcNetBridge

variable {prim : Primitives} {serde : Serde} {env : OpEnv} {b : F2fDcNetBridge}

/-- The entries that an operation appends to the log. -/
def appended (b : F2fDcNetBridge) : Operation → List WalOperation
  | .call c => b.toBridge.entries c
  | _ => []

/-- If the operation changes the record, it appends entries to the log whose replay from the state
before leads to the new record. -/
def LogsCompletely (prim : Primitives) (serde : Serde) (env : OpEnv) (b : F2fDcNetBridge)
    (op : Operation) : Prop :=
  (b.apply prim serde env op).toBridge.recorded ≠ b.toBridge.recorded →
    (b.apply prim serde env op).wal =
        b.wal.map (fun w => w.logAll serde b.toBridge.snapshot env.tick (b.appended op)) ∧
      ∀ fresh, (b.toBridge.applyOps prim fresh (b.appended op)).recorded =
        (b.apply prim serde env op).toBridge.recorded

/-- The log covers the operation: it has entries, or it finds what it is to record. A topic is the
one that is set; every friend has the trust level of its reputation, after the reward for the round
in the case of a broadcast that holds one; a replayed operation is redundant; a snapshot stands for
what is recorded already. -/
def Covered (prim : Primitives) (env : OpEnv) (b : F2fDcNetBridge) : Operation → Prop
  | .setTopic channel topic => ∀ ch, b.channels.lookup channel = some ch → ch.topic = topic
  | .syncReputationToTrust => ∀ uid f, b.friends.lookup uid = some f →
      f.trustLevel = (b.reputation.get env.now f.peerId.toList).syncLevel
  | .broadcastMessage channel _ => HoldsRound prim b channel →
      ∀ group, b.groups.lookup channel = some group → ∀ uid f, b.friends.lookup uid = some f →
        let r := b.reputation.get env.now f.peerId.toList
        f.trustLevel = (if f.peerId ∈ group.peerIds then r.reward else r).syncLevel
  | .applyOpNoLog op => b.toBridge.social.Redundant op
  | .applySnapshot snap => snap.recorded = b.toBridge.recorded
  | _ => True

/-- Without entries, nothing may change. -/
theorem logsCompletely_iff_of_nil {op : Operation} (h : b.appended op = []) :
    LogsCompletely prim serde env b op ↔
      (b.apply prim serde env op).toBridge.recorded = b.toBridge.recorded := by
  constructor
  · intro hlogs
    by_contra hne
    have hreplay := (hlogs hne).2 env.fresh
    rw [h] at hreplay
    exact hne hreplay.symm
  · exact fun heq hne => absurd heq hne

/-- A broadcast changes what is on record by the trust levels that it syncs, and by nothing else. -/
theorem recorded_broadcastMessage_iff (hb : Sound prim b.toBridge) (channel text : String) :
    (b.broadcastMessage prim env channel text).1.toBridge.recorded = b.toBridge.recorded ↔
      Covered prim env b (.broadcastMessage channel text) := by
  have hcases := @broadcastMessage_cases prim env b hb.friends channel
    (fun group hgroup => (hb.groups channel group hgroup).nodup) text
  generalize (b.broadcastMessage prim env channel text).1 = b' at hcases
  cases hcases with
  | refused hnot => exact iff_of_true rfl fun h => absurd h hnot
  | opened hnot hgroup _ => exact iff_of_true rfl fun h => absurd h hnot
  | @held group group' friends reputation nextId hholds hgroup _ _ hlookup =>
    have hrecorded := Bridge.recorded_modifyChannel { b.toBridge with friends := friends } channel
      (fun ch => { ch with roundId := nextId }) (fun ch => ⟨rfl, rfl⟩)
      (b.groups.insert channel group')
    refine (Eq.congr_left hrecorded).trans ((Bridge.recorded_friends_iff hlookup).trans ?_)
    constructor
    · intro h _ group'' hgroup''
      obtain rfl := Option.some.inj (hgroup.symm.trans hgroup'')
      exact h
    · exact fun h => h hholds group hgroup

/-- What an operation changes is in the log if and only if the log covers the operation. -/
theorem complete_logging_iff (prim : Primitives) (serde : Serde) {b : F2fDcNetBridge}
    (h : Reachable prim serde (fun _ _ => True) (fun _ => True) b) (env : OpEnv) (op : Operation) :
    LogsCompletely prim serde env b op ↔ Covered prim env b op := by
  have hb := h.sound
  cases op with
  | call c =>
    -- in memory a call does what replaying its entries does, whatever keys are drawn
    refine iff_of_true (fun _ => ?_) trivial
    rw [apply, Bridge.apply_eq]
    exact ⟨rfl, fun fresh => Bridge.recorded_applyOps_congr hb.wellFormed _ _ _⟩
  | attachWal wal => exact (logsCompletely_iff_of_nil rfl).trans (iff_of_true rfl trivial)
  | checkpointWal => exact (logsCompletely_iff_of_nil rfl).trans (iff_of_true rfl trivial)
  | applyOpNoLog op =>
    exact (logsCompletely_iff_of_nil rfl).trans
      (Bridge.recorded_applyOpNoLog_iff hb.wellFormed _ op)
  | applySnapshot snap =>
    refine (logsCompletely_iff_of_nil rfl).trans ?_
    rw [apply, Bridge.recorded_applySnapshot]
    rfl
  | switchChannel name =>
    refine (logsCompletely_iff_of_nil rfl).trans (iff_of_true ?_ trivial)
    rw [apply, Bridge.switchChannel]
    split <;> rfl
  | setTopic channel topic =>
    exact (logsCompletely_iff_of_nil rfl).trans (Bridge.recorded_setTopic_iff channel topic)
  | syncReputationToTrust =>
    refine (logsCompletely_iff_of_nil rfl).trans ?_
    obtain ⟨friends, reputation, heq, hlookup⟩ :=
      @syncReputationToTrust_spec env b fun uid f hf => (hb.friends uid f hf).1
    rw [apply, heq]
    exact Bridge.recorded_friends_iff hlookup
  | broadcastMessage channel text =>
    exact (logsCompletely_iff_of_nil rfl).trans (recorded_broadcastMessage_iff hb channel text)
  | startRoundDriver channel intervalMs =>
    refine (logsCompletely_iff_of_nil rfl).trans (iff_of_true ?_ trivial)
    exact Bridge.recorded_modifyChannel b.toBridge channel (fun ch => { ch with running := true })
      (fun ch => ⟨rfl, rfl⟩) b.groups
  | stopRoundDriver channel =>
    refine (logsCompletely_iff_of_nil rfl).trans (iff_of_true ?_ trivial)
    exact Bridge.recorded_modifyChannel b.toBridge channel (fun ch => { ch with running := false })
      (fun ch => ⟨rfl, rfl⟩) b.groups

/-- `alice` has an empty log and a channel. -/
def aliceRecording : F2fDcNetBridge :=
  ((new "alice").apply .const (.ofTable [] []) .still
    (.attachWal (.openAt ⟨[], none⟩ 100 0))).apply .const (.ofTable [] []) .still
      (.call (.createChannel "#g"))

/-- A bridge that has just been created and given a log. -/
theorem reachable_aliceRecording :
    Reachable .const (.ofTable [] []) (fun _ _ => True) (fun _ => True) aliceRecording :=
  .step .still _ (.step .still _ (.start "alice") trivial) trivial

/-- A new friend is logged, and the log leads to the new record. -/
theorem complete_logging_iff_friend :
    LogsCompletely .const (.ofTable [] []) .still aliceRecording
      (.call (.addFriend "bob" "127.0.0.1:9000" 1)) :=
  (complete_logging_iff .const (.ofTable [] []) reachable_aliceRecording .still _).mpr trivial

/-- The topic of a channel is recorded, but setting it is not logged. -/
theorem topic_not_logged :
    ¬ ∀ (prim : Primitives) (serde : Serde) (b : F2fDcNetBridge),
      Reachable prim serde (fun _ _ => True) (fun _ => True) b → b.wal.isSome = true →
        ∀ (env : OpEnv) (op : Operation), LogsCompletely prim serde env b op := by
  intro hclaim
  have hlogs := hclaim _ _ _ reachable_aliceRecording (by decide +kernel) .still
    (.setTopic "#g" "news")
  have hbefore : aliceRecording.toBridge.recorded.topics "#g" = some "" := by decide +kernel
  have hafter : (aliceRecording.apply .const (.ofTable [] []) .still
      (.setTopic "#g" "news")).toBridge.recorded.topics "#g" = some "news" := by decide +kernel
  have heq := (logsCompletely_iff_of_nil rfl).mp hlogs
  rw [heq, hbefore] at hafter
  exact absurd hafter (by decide)

end F2fDcNetBridge

end ChronoShift
