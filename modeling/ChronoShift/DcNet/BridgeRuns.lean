import ChronoShift.DcNet.Broadcast
import ChronoShift.DcNet.EdgeKeys

/-!
# Runs of a bridge

The bridges that operations, replays and restarts lead to, and what all of them keep. Most
operations leave the membership alone (`Quiet`); the others replay operations of the log or load a
snapshot, so an invariant is checked for these.

* `F2fDcNetBridge.Reachable.sound`: friends are stored with their ids, and groups list each member
  once and no malicious ones;
* `F2fDcNetBridge.Reachable.invariant`: the rule by which other invariants are proved.
-/

namespace ChronoShift

open ToMathlib

namespace F2fDcNetBridge

/-! ## Runs -/

/-- The bridges that operations which meet `ok` lead to, and restarts from the snapshots of bridges
which meet `okRestore`. -/
inductive Reachable (prim : Primitives) (serde : Serde) (ok : F2fDcNetBridge → Operation → Prop)
    (okRestore : F2fDcNetBridge → Prop) : F2fDcNetBridge → Prop
  | start (myUid : String) : Reachable prim serde ok okRestore (new myUid)
  | step {b : F2fDcNetBridge} (env : OpEnv) (op : Operation) :
      Reachable prim serde ok okRestore b → ok b op →
      Reachable prim serde ok okRestore (b.apply prim serde env op)
  /-- The snapshot of one bridge is loaded into another one. -/
  | restore {b target : F2fDcNetBridge} (fresh : ℕ → Bytes32) :
      Reachable prim serde ok okRestore b → Reachable prim serde ok okRestore target →
      okRestore b → Reachable prim serde ok okRestore
        { target with toBridge := target.toBridge.applySnapshot prim fresh b.toBridge.snapshot }

/-- What every bridge keeps, with its friends and groups. -/
structure Sound (prim : Primitives) (b : Bridge) : Prop where
  wellFormed : b.WellFormed
  friends : KnowsFriends prim b
  groups : ∀ name g, b.groups.lookup name = some g → g.Sound

/-- Membership stays as it is: our uid, the uids and ids of the friends, the participants of the
channels and the members of the groups. -/
structure Quiet (b b' : Bridge) : Prop where
  myUid : b'.myUid = b.myUid
  minTrust : b'.minTrust = b.minTrust
  friends : ∀ uid, (b'.friends.lookup uid).map (fun f => (f.uid, f.peerId)) =
    (b.friends.lookup uid).map fun f => (f.uid, f.peerId)
  trust : ∀ uid f, b'.friends.lookup uid = some f → f.trustLevel ≤ 2
  channels : ∀ name, (b'.channels.lookup name).map (fun ch => (ch.name, ch.participants)) =
    (b.channels.lookup name).map fun ch => (ch.name, ch.participants)
  groups : ∀ name, (b'.groups.lookup name).map DcGroup.peerIds =
    (b.groups.lookup name).map DcGroup.peerIds
  clean : ∀ name g, b'.groups.lookup name = some g → g.Clean

variable {prim : Primitives} {serde : Serde} {env : OpEnv}

section Quiet

variable {b b' : Bridge}

/-- A channel after a quiet step is a channel before it. -/
theorem Quiet.exists_channel (h : Quiet b b') {name : String} {ch' : ChannelInfo}
    (hch : b'.channels.lookup name = some ch') :
    ∃ ch, b.channels.lookup name = some ch ∧ ch.name = ch'.name ∧
      ch.participants = ch'.participants := by
  have hmap := h.channels name
  rw [hch, Option.map_some, eq_comm, Option.map_eq_some_iff] at hmap
  obtain ⟨ch, hlookup, heq⟩ := hmap
  obtain ⟨hname, hparticipants⟩ := Prod.mk.inj heq
  exact ⟨ch, hlookup, hname, hparticipants⟩

/-- A group after a quiet step is a group before it. -/
theorem Quiet.exists_group (h : Quiet b b') {name : String} {g' : DcGroup}
    (hg : b'.groups.lookup name = some g') :
    ∃ g, b.groups.lookup name = some g ∧ g.peerIds = g'.peerIds := by
  have hmap := h.groups name
  rw [hg, Option.map_some, eq_comm, Option.map_eq_some_iff] at hmap
  exact hmap

/-- A friend after a quiet step is a friend before it. -/
theorem Quiet.exists_friend (h : Quiet b b') {uid : String} {f' : F2fFriend}
    (hf : b'.friends.lookup uid = some f') :
    ∃ f, b.friends.lookup uid = some f ∧ f.uid = f'.uid ∧ f.peerId = f'.peerId := by
  have hmap := h.friends uid
  rw [hf, Option.map_some, eq_comm, Option.map_eq_some_iff] at hmap
  obtain ⟨f, hlookup, heq⟩ := hmap
  obtain ⟨huid, hpeer⟩ := Prod.mk.inj heq
  exact ⟨f, hlookup, huid, hpeer⟩

/-- Soundness speaks of the membership only. -/
theorem Quiet.sound (h : Quiet b b') (hb : Sound prim b) : Sound prim b' := by
  -- tables that agree in some view have the same keys
  have hmem {α : Type} (m m' : HashMap String α) {β : Type} (view : α → β)
      (heq : ∀ name, (m'.lookup name).map view = (m.lookup name).map view) (name : String) :
      name ∈ m' ↔ name ∈ m := by
    rw [← AList.lookup_isSome, ← AList.lookup_isSome, ← Option.isSome_map (f := view), heq,
      Option.isSome_map]
  refine ⟨⟨h.trust, ?_, ?_, ?_⟩, ?_, ?_⟩
  · intro name ch' hch'
    obtain ⟨ch, hch, hname, -⟩ := h.exists_channel hch'
    rw [← hname]
    exact hb.wellFormed.name name ch hch
  · intro name
    rw [hmem _ _ _ h.groups, hmem _ _ _ h.channels]
    exact hb.wellFormed.group name
  · rw [h.minTrust]
    exact hb.wellFormed.minTrust
  · intro uid f' hf'
    obtain ⟨f, hf, huid, hpeer⟩ := h.exists_friend hf'
    rw [← huid, ← hpeer]
    exact hb.friends uid f hf
  · intro name g' hg'
    obtain ⟨g, hg, hids⟩ := h.exists_group hg'
    exact ⟨hids ▸ (hb.groups name g hg).nodup, h.clean name g' hg'⟩

/-- What a quiet step keeps of a bridge that changes only its log and the current channel. -/
theorem quiet_of_eq (hb : Sound prim b) (hmyUid : b'.myUid = b.myUid)
    (hminTrust : b'.minTrust = b.minTrust) (hfriends : b'.friends = b.friends)
    (hchannels : b'.channels = b.channels) (hgroups : b'.groups = b.groups) : Quiet b b' := by
  refine ⟨hmyUid, hminTrust, ?_, ?_, ?_, ?_, ?_⟩
  · rw [hfriends]
    exact fun _ => rfl
  · rw [hfriends]
    exact hb.wellFormed.trust
  · rw [hchannels]
    exact fun _ => rfl
  · rw [hgroups]
    exact fun _ => rfl
  · rw [hgroups]
    exact fun name g hg => (hb.groups name g hg).clean

/-- A channel whose name and participants stay. -/
theorem quiet_modifyChannel (hb : Sound prim b) (channel : String) {g : ChannelInfo → ChannelInfo}
    (hg : ∀ ch, (g ch).name = ch.name ∧ (g ch).participants = ch.participants) :
    Quiet b { b with channels := HashMap.modify b.channels channel g } := by
  refine ⟨rfl, rfl, fun _ => rfl, hb.wellFormed.trust, fun name => ?_, fun _ => rfl,
    fun name g hg => (hb.groups name g hg).clean⟩
  exact HashMap.map_lookup_modify b.channels channel name fun ch => Prod.ext (hg ch).1 (hg ch).2

end Quiet

/-! ## Quiet operations -/

section Operations

variable {b : F2fDcNetBridge}

/-- Changed trust levels. -/
theorem quiet_friends (hb : Sound prim b.toBridge) {friends : HashMap String F2fFriend}
    {level : F2fFriend → UInt8} (hlevel : ∀ f, level f ≤ 2)
    (hfriends : ∀ uid, friends.lookup uid =
      (b.friends.lookup uid).map fun f => { f with trustLevel := level f }) :
    Quiet b.toBridge { b.toBridge with friends := friends } := by
  refine ⟨rfl, rfl, fun uid => ?_, fun uid f hf => ?_, fun _ => rfl, fun _ => rfl,
    fun name g hg => (hb.groups name g hg).clean⟩
  · show (friends.lookup uid).map _ = _
    rw [hfriends, Option.map_map]
    rfl
  · rw [hfriends] at hf
    obtain ⟨f', -, rfl⟩ := Option.map_eq_some_iff.mp hf
    exact hlevel f'

/-- Reputations become trust levels, and no friend is added or removed. -/
theorem quiet_syncReputationToTrust (hb : Sound prim b.toBridge) :
    Quiet b.toBridge (b.syncReputationToTrust env).1.toBridge := by
  obtain ⟨friends, reputation, heq, hlookup⟩ :=
    @syncReputationToTrust_spec env b fun uid f hf => (hb.friends uid f hf).1
  rw [heq]
  exact quiet_friends hb (fun f => Reputation.syncLevel_le _) hlookup

/-- A group that is replaced by one with the same members. -/
theorem Quiet.insertGroup {b b' : Bridge} (h : Quiet b b') {channel : String}
    {group group' : DcGroup} (hgroup : b'.groups.lookup channel = some group)
    (hids : group'.peerIds = group.peerIds) (hclean : group'.Clean) :
    Quiet b { b' with groups := b'.groups.insert channel group' } := by
  refine ⟨h.myUid, h.minTrust, h.friends, h.trust, h.channels, fun name => ?_, fun name g hg => ?_⟩
  · rw [← h.groups, HashMap.lookup_insert_ite]
    split
    next heq => rw [heq, hgroup, Option.map_some, Option.map_some, hids]
    next => rfl
  · rw [HashMap.lookup_insert_ite] at hg
    split at hg
    · rw [← Option.some.inj hg]
      exact hclean
    · exact h.clean name g hg

/-- A bridge that stays as it is. -/
theorem Quiet.refl (hb : Sound prim b.toBridge) : Quiet b.toBridge b.toBridge :=
  quiet_of_eq hb rfl rfl rfl rfl rfl

/-- Two quiet steps after each other. -/
theorem Quiet.trans {b b' b'' : Bridge} (h : Quiet b b') (h' : Quiet b' b'') : Quiet b b'' :=
  ⟨h'.myUid.trans h.myUid, h'.minTrust.trans h.minTrust,
    fun uid => (h'.friends uid).trans (h.friends uid), h'.trust,
    fun name => (h'.channels name).trans (h.channels name),
    fun name => (h'.groups name).trans (h.groups name), h'.clean⟩

/-- A broadcast evicts nobody: all participants are simulated, so all of them answer. -/
theorem quiet_broadcastMessage (hb : Sound prim b.toBridge) (channel text : String) :
    Quiet b.toBridge (b.broadcastMessage prim env channel text).1.toBridge := by
  have hcases := @broadcastMessage_cases prim env b hb.friends channel
    (fun group hgroup => (hb.groups channel group hgroup).nodup) text
  generalize (b.broadcastMessage prim env channel text).1 = b' at hcases
  cases hcases with
  | refused => exact Quiet.refl hb
  | @opened group group' nextId _ hgroup hstart =>
    have hids := DcGroup.peerIds_startRound (hb.groups channel group hgroup).clean nextId env.now
    have hclean := group.clean_startRound nextId env.now
    rw [hstart] at hids hclean
    exact (Quiet.refl hb).insertGroup hgroup hids hclean
  | @held group group' friends reputation nextId _ hgroup hids hclean hlookup =>
    -- a clean group starts its round with all of its members
    rw [DcGroup.peerIds_startRound (hb.groups channel group hgroup).clean] at hids
    have hfriends : Quiet b.toBridge { b.toBridge with friends := friends } :=
      quiet_friends hb (fun f => Reputation.syncLevel_le _) hlookup
    have hgroups := hfriends.insertGroup hgroup hids hclean
    exact hgroups.trans (quiet_modifyChannel (hgroups.sound hb) channel fun ch => ⟨rfl, rfl⟩)

/-- The operations that leave the membership alone. -/
def Operation.IsQuiet : Operation → Prop
  | .call _ | .applyOpNoLog _ | .applySnapshot _ => False
  | _ => True

/-- All operations except calls that are logged and loaded states are quiet. -/
theorem quiet_apply (hb : Sound prim b.toBridge) {op : Operation} (hop : op.IsQuiet) :
    Quiet b.toBridge (b.apply prim serde env op).toBridge := by
  cases op with
  | call | applyOpNoLog | applySnapshot => exact hop.elim
  | attachWal wal => exact quiet_of_eq hb rfl rfl rfl rfl rfl
  | checkpointWal => exact quiet_of_eq hb rfl rfl rfl rfl rfl
  | switchChannel name =>
    rw [apply, Bridge.switchChannel]
    split
    · exact quiet_of_eq hb rfl rfl rfl rfl rfl
    · exact Quiet.refl hb
  | setTopic channel topic => exact quiet_modifyChannel hb channel fun ch => ⟨rfl, rfl⟩
  | syncReputationToTrust => exact quiet_syncReputationToTrust hb
  | broadcastMessage channel text => exact quiet_broadcastMessage hb channel text
  | startRoundDriver channel intervalMs => exact quiet_modifyChannel hb channel fun ch => ⟨rfl, rfl⟩
  | stopRoundDriver channel => exact quiet_modifyChannel hb channel fun ch => ⟨rfl, rfl⟩

end Operations

/-! ## Replayed operations and snapshots -/

namespace Sound

variable {b : Bridge}

/-- A new bridge knows nobody. -/
theorem new (myUid : String) : Sound prim (Bridge.new myUid) :=
  ⟨Bridge.wellFormed_new myUid, fun uid f hf => by simp [Bridge.new] at hf,
    fun name g hg => by simp [Bridge.new] at hg⟩

/-- The log does not matter. -/
theorem wal (hb : Sound prim b) (w : Option WalStore) : Sound prim { b with wal := w } :=
  ⟨hb.wellFormed.wal w, hb.friends, hb.groups⟩

end Sound

section Replay

variable {b : Bridge}

/-- A friend is stored under its uid, with the id that follows from the uid. -/
theorem KnowsFriends.insert (h : KnowsFriends prim b) (key : Bytes32) (uid addr : String)
    (trust : UInt8) : KnowsFriends prim { b with
      friends := b.friends.insert uid (F2fFriend.new prim key uid addr trust) } := by
  intro uid' f hf
  rw [HashMap.lookup_insert_ite] at hf
  split at hf
  next heq =>
    rw [← Option.some.inj hf, heq]
    exact ⟨rfl, rfl⟩
  next => exact h uid' f hf

/-- A change of a friend that keeps its uid and id. -/
theorem KnowsFriends.modify (h : KnowsFriends prim b) (uid : String) {g : F2fFriend → F2fFriend}
    (hg : ∀ f, (g f).uid = f.uid ∧ (g f).peerId = f.peerId) :
    KnowsFriends prim { b with friends := HashMap.modify b.friends uid g } := by
  intro uid' f hf
  rw [HashMap.lookup_modify] at hf
  split at hf
  · obtain ⟨f', hf', rfl⟩ := Option.map_eq_some_iff.mp hf
    rw [(hg f').1, (hg f').2]
    exact h uid' f' hf'
  · exact h uid' f hf

/-- No replayed operation stores a friend under another uid. -/
theorem knowsFriends_applyOpNoLog (h : KnowsFriends prim b) (fresh : Bytes32) (op : WalOperation) :
    KnowsFriends prim (b.applyOpNoLog prim fresh op) := by
  cases op with
  | addFriend uid addr trust => exact h.insert fresh uid addr trust
  | removeFriend uid =>
    intro uid' f hf
    rw [Bridge.applyOpNoLog, HashMap.lookup_erase_ite] at hf
    split at hf
    · cases hf
    · exact h uid' f hf
  -- these change a friend in place
  | updateTrust uid trust => exact h.modify uid fun f => ⟨rfl, rfl⟩
  | updateEdgeKey uid keyHex =>
    rw [Bridge.applyOpNoLog]
    split
    · exact h.modify uid fun f => ⟨rfl, rfl⟩
    · exact h
  | createChannel name =>
    intro uid f hf
    rw [Bridge.applyOpNoLog, Bridge.createChannelNoLog_friends] at hf
    exact h uid f hf
  | joinChannel channel uid =>
    intro uid' f hf
    rw [Bridge.applyOpNoLog, Bridge.joinChannelNoLog_friends] at hf
    exact h uid' f hf
  | leaveChannel channel uid =>
    rw [Bridge.applyOpNoLog]
    split_ifs <;> exact h
  | _ => exact h

/-- A property of groups that replayed operations and snapshots keep. -/
structure GroupRule (P : DcGroup → Prop) : Prop where
  new : ∀ groupId, P (DcGroup.new groupId 2 1)
  join : ∀ g peerId, P g → P (g.join peerId)
  leave : ∀ g peerId, P g → P (g.leave peerId)

/-- The group of a new channel has us as its member. -/
theorem groups_createChannelNoLog (name n : String) :
    (b.createChannelNoLog prim name).groups.lookup n =
      if n = name ∧ name ∉ b.channels then
        some ((DcGroup.new (prim.sha256 (asBytes name)) 2 1).join (peerIdOf prim b.myUid))
      else b.groups.lookup n := by
  unfold Bridge.createChannelNoLog
  by_cases h : name ∈ b.channels
  · rw [if_pos h, if_neg fun hn => hn.2 h]
  · rw [if_neg h, HashMap.lookup_insert_ite]
    simp only [h, not_false_eq_true, and_true]

variable {P : DcGroup → Prop}

/-- A new channel brings a new group, which we join. -/
theorem GroupRule.createChannelNoLog (hP : GroupRule P)
    (h : ∀ name g, b.groups.lookup name = some g → P g) (name : String) :
    ∀ n g, (b.createChannelNoLog prim name).groups.lookup n = some g → P g := by
  intro n g hg
  rw [groups_createChannelNoLog] at hg
  split at hg
  · rw [← Option.some.inj hg]
    exact hP.join _ _ (hP.new _)
  · exact h n g hg

/-- One group is changed, the others are as they were. -/
theorem modify_groups {groups : HashMap String DcGroup}
    (h : ∀ name g, groups.lookup name = some g → P g) (channel : String)
    {change : DcGroup → DcGroup} (hchange : ∀ g, P g → P (change g)) :
    ∀ name g, (HashMap.modify groups channel change).lookup name = some g → P g := by
  intro name g hg
  rw [HashMap.lookup_modify] at hg
  split at hg
  · obtain ⟨g', hg', rfl⟩ := Option.map_eq_some_iff.mp hg
    exact hchange g' (h name g' hg')
  · exact h name g hg

/-- Replayed operations create, join and leave groups. -/
theorem GroupRule.applyOpNoLog (hP : GroupRule P)
    (h : ∀ name g, b.groups.lookup name = some g → P g) (fresh : Bytes32) (op : WalOperation) :
    ∀ name g, (b.applyOpNoLog prim fresh op).groups.lookup name = some g → P g := by
  cases op with
  | updateEdgeKey uid keyHex =>
    rw [Bridge.applyOpNoLog]
    split <;> exact h
  | createChannel name => exact hP.createChannelNoLog h name
  | joinChannel channel uid =>
    rw [Bridge.applyOpNoLog, Bridge.joinChannelNoLog]
    split
    next b' hjoin =>
      -- the group of the channel gets one member more
      obtain ⟨ch, group, f, -, hgroup, -, -, -, -, rfl⟩ := Bridge.joinOne_eq_some hjoin
      intro name g hg
      rw [Bridge.joinChannelNoLog, HashMap.lookup_insert_ite] at hg
      split at hg
      · rw [← Option.some.inj hg]
        exact hP.join _ _ (h channel group hgroup)
      · exact h name g hg
    next => exact h
  | leaveChannel channel uid =>
    rw [Bridge.applyOpNoLog]
    split_ifs
    · exact modify_groups h channel fun g hg => hP.leave g _ hg
    · exact modify_groups h channel fun g hg => hP.leave g _ hg
    · exact h
  | _ => exact h

/-- A log is replayed operation by operation. -/
theorem GroupRule.applyOps (hP : GroupRule P)
    (h : ∀ name g, b.groups.lookup name = some g → P g) (fresh : ℕ → Bytes32)
    (ops : List WalOperation) :
    ∀ name g, (b.applyOps prim fresh ops).groups.lookup name = some g → P g := by
  induction ops generalizing b fresh with
  | nil => exact h
  | cons op ops ih => exact ih (hP.applyOpNoLog h (fresh 0) op) _

/-- A channel of a snapshot is created, and its participants join it. -/
theorem GroupRule.restoreChannel (hP : GroupRule P)
    (h : ∀ name g, b.groups.lookup name = some g → P g) (c : ChannelRecord) :
    ∀ name g, (b.restoreChannel prim c).groups.lookup name = some g → P g := by
  refine modify_groups (hP.createChannelNoLog h c.name) c.name fun g hg => ?_
  generalize c.participants = participants
  induction participants generalizing g with
  | nil => exact hg
  | cons p participants ih => exact ih _ (hP.join g _ hg)

/-- The groups of a snapshot are built from nothing. -/
theorem GroupRule.applySnapshot (hP : GroupRule P) (b : Bridge) (fresh : ℕ → Bytes32)
    (snap : SocialSnapshot) :
    ∀ name g, (b.applySnapshot prim fresh snap).groups.lookup name = some g → P g := by
  have hrecords : ∀ (records : List ChannelRecord) (b : Bridge),
      (∀ name g, b.groups.lookup name = some g → P g) → ∀ name g,
        (records.foldl (fun b c => b.restoreChannel prim c) b).groups.lookup name = some g →
          P g := by
    intro records
    induction records with
    | nil => exact fun _ h => h
    | cons c records ih => exact fun _ h => ih _ (hP.restoreChannel h c)
  exact hrecords snap.channels _ fun name g hg => by simp at hg

/-- Soundness of groups is such a property. -/
theorem groupRule_sound : GroupRule DcGroup.Sound :=
  ⟨fun groupId => .new groupId 2 1, fun _ peerId hg => hg.join peerId,
    fun _ peerId hg => hg.leave peerId⟩

/-- A replayed operation keeps everything that a bridge keeps. -/
theorem Sound.applyOpNoLog (hb : Sound prim b) (fresh : Bytes32) (op : WalOperation) :
    Sound prim (b.applyOpNoLog prim fresh op) :=
  ⟨hb.wellFormed.applyOpNoLog prim fresh op, knowsFriends_applyOpNoLog hb.friends fresh op,
    groupRule_sound.applyOpNoLog hb.groups fresh op⟩

/-- So does a replayed log. -/
theorem Sound.applyOps (hb : Sound prim b) (fresh : ℕ → Bytes32) (ops : List WalOperation) :
    Sound prim (b.applyOps prim fresh ops) := by
  induction ops generalizing b fresh with
  | nil => exact hb
  | cons op ops ih => exact ih (hb.applyOpNoLog (fresh 0) op) _

/-- The friends of a snapshot are stored one by one. -/
theorem knowsFriends_insertFriends (fresh : ℕ → Bytes32) {friends : HashMap String F2fFriend}
    (h : KnowsFriends prim { b with friends := friends }) (records : List FriendRecord) :
    KnowsFriends prim { b with friends := Bridge.insertFriends prim fresh friends records } := by
  induction records generalizing fresh friends with
  | nil => exact h
  | cons record records ih => exact ih _ (h.insert _ record.uid record.addr record.trust)

/-- Whatever snapshot is read, the bridge that is rebuilt from it is sound. -/
theorem Sound.applySnapshot (hb : Sound prim b) (fresh : ℕ → Bytes32) (snap : SocialSnapshot) :
    Sound prim (b.applySnapshot prim fresh snap) := by
  refine ⟨hb.wellFormed.applySnapshot fresh snap, ?_, ?_⟩
  · intro uid f hf
    rw [Bridge.applySnapshot, Bridge.foldl_restoreChannel_friends] at hf
    exact @knowsFriends_insertFriends prim b fresh ∅ (fun uid f hf => by simp at hf) snap.friends
      uid f hf
  · exact groupRule_sound.applySnapshot b fresh snap

end Replay

/-! ## The run rule -/

section Rule

variable {ok : F2fDcNetBridge → Operation → Prop} {okRestore : F2fDcNetBridge → Prop}
  {b : F2fDcNetBridge}

/-- Every bridge is sound, whatever operations it has gone through. -/
theorem Reachable.sound (h : Reachable prim serde ok okRestore b) : Sound prim b.toBridge := by
  induction h with
  | start myUid => exact Sound.new myUid
  | @step b env op _ _ ih =>
    cases op with
    | call c =>
      rw [apply, Bridge.apply_eq]
      exact (ih.applyOps _ _).wal _
    | applyOpNoLog op => exact ih.applyOpNoLog _ op
    | applySnapshot snap => exact ih.applySnapshot _ snap
    | _ => exact Quiet.sound (quiet_apply ih (by exact trivial)) ih
  | restore fresh _ _ _ _ ih => exact ih.applySnapshot fresh _

/-- The entries of a call: several joins, or at most one operation. -/
theorem entries_cases (b : Bridge) (c : Bridge.Call) :
    (∃ channel, ∃ uids : List String,
        b.entries c = uids.map (WalOperation.joinChannel channel)) ∨
      b.entries c = [] ∨ ∃ op, b.entries c = [op] := by
  cases c with
  | joinChannel channel uids => exact .inl ⟨channel, _, rfl⟩
  | setEdgeKey uid key =>
    rw [Bridge.entries]
    split
    · exact .inr (.inr ⟨_, rfl⟩)
    · exact .inr (.inl rfl)
  | importEdgeKey uid hex =>
    rw [Bridge.entries]
    split
    · split
      · exact .inr (.inr ⟨_, rfl⟩)
      · exact .inr (.inl rfl)
    · exact .inr (.inl rfl)
  | createChannel name =>
    rw [Bridge.entries]
    split
    · exact .inr (.inl rfl)
    · exact .inr (.inr ⟨_, rfl⟩)
  | _ => exact .inr (.inr ⟨_, rfl⟩)

/-- A condition on the operations of a bridge that asks something of replayed operations, of the
entries that a call logs, and of the snapshots that are loaded. -/
def Meets (okOp : Bridge → WalOperation → Prop) (okSnap : SocialSnapshot → Prop)
    (b : F2fDcNetBridge) : Operation → Prop
  | .call c => ∀ op ∈ b.toBridge.entries c, okOp b.toBridge op
  | .applyOpNoLog op => okOp b.toBridge op
  | .applySnapshot snap => okSnap snap
  | _ => True

/-- The condition on a call, from the entries that the call logs. -/
theorem Meets.call {okOp : Bridge → WalOperation → Prop} {okSnap : SocialSnapshot → Prop}
    {c : Bridge.Call} {ops : List WalOperation} (h : b.toBridge.entries c = ops)
    (hops : ∀ op ∈ ops, okOp b.toBridge op) : Meets okOp okSnap b (.call c) :=
  fun op hop => hops op (h ▸ hop)

/-- What holds of new bridges and is kept by quiet steps, replayed operations and snapshots holds
in every run. Joins come several at a time, so they must keep it in any state. -/
theorem Reachable.invariant {okOp : Bridge → WalOperation → Prop} {okSnap : SocialSnapshot → Prop}
    {P : Bridge → Prop} (hreach : Reachable prim serde (Meets okOp okSnap) okRestore b)
    (hnew : ∀ myUid, P (Bridge.new myUid))
    (hquiet : ∀ b b', Sound prim b → P b → Quiet b b' → P b')
    (hop : ∀ b fresh op, Sound prim b → P b → okOp b op → P (b.applyOpNoLog prim fresh op))
    (hjoin : ∀ b fresh channel uid, Sound prim b → P b →
      P (b.applyOpNoLog prim fresh (.joinChannel channel uid)))
    (hsnap : ∀ (b : Bridge) fresh snap, okSnap snap → P (b.applySnapshot prim fresh snap))
    (hrestore : ∀ (b : F2fDcNetBridge) (target : Bridge) fresh, Sound prim b.toBridge →
      P b.toBridge → okRestore b → P (target.applySnapshot prim fresh b.toBridge.snapshot)) :
    P b.toBridge := by
  -- the condition is about the state before the call, and not about the one after the first join
  have hjoins : ∀ (channel : String) (uids : List String) (b : Bridge) (fresh : ℕ → Bytes32),
      Sound prim b → P b →
        P (b.applyOps prim fresh (uids.map (WalOperation.joinChannel channel))) := by
    intro channel uids
    induction uids with
    | nil => exact fun b fresh _ h => h
    | cons uid uids ih =>
      intro b fresh hb h
      exact ih _ _ (hb.applyOpNoLog _ _) (hjoin b _ channel uid hb h)
  have hwal : ∀ (b : Bridge) (w : Option WalStore), Sound prim b → P b → P { b with wal := w } :=
    fun b w hb h => hquiet b _ hb h (quiet_of_eq hb rfl rfl rfl rfl rfl)
  induction hreach with
  | start myUid => exact hnew myUid
  | @step b env op hreach hok ih =>
    have hb := hreach.sound
    cases op with
    | call c =>
      -- in memory, a call does what replaying its entries does
      rw [apply, Bridge.apply_eq]
      refine hwal _ _ (hb.applyOps _ _) ?_
      obtain ⟨channel, uids, heq⟩ | heq | ⟨op, heq⟩ := entries_cases b.toBridge c
      · rw [heq]
        exact hjoins channel uids _ _ hb ih
      · rw [heq]
        exact ih
      · rw [heq]
        exact hop _ _ op hb ih (hok op (by rw [heq]; exact List.mem_singleton.mpr rfl))
    | applyOpNoLog op => exact hop _ _ op hb ih hok
    | applySnapshot snap => exact hsnap _ _ snap hok
    | _ => exact hquiet _ _ hb ih (quiet_apply hb trivial)
  | restore fresh hreach _ hok ih => exact hrestore _ _ fresh hreach.sound ih hok

end Rule

end F2fDcNetBridge

end ChronoShift
