import ChronoShift.DcNet.F2f

/-!
# The social state of a bridge

The abstract state behind a bridge: our uid, the address and trust of every friend, and the
participants of every channel. `Social.apply` is the meaning of a logged operation on it, and
`Bridge.social` forgets keys, groups, topics and the log.

* `Bridge.social_applyOps`: replaying operations on a bridge is applying them to its social state;
* `Bridge.apply_eq`: a call changes the memory as replaying its own log entries would;
* `Bridge.social_applySnapshot`, `Bridge.social_snapshot`: a bridge rebuilt from a snapshot has the
  social state of the bridge the snapshot was taken of;
* `Bridge.lookup_friends_applySnapshot`: and its friends have their edge keys again.
-/

namespace ChronoShift

open ToMathlib

/-- The social state of a node. -/
@[ext]
structure Social where
  uid : String
  /-- Address and trust of a friend. -/
  friends : String → Option (String × UInt8)
  /-- The participants of a channel. -/
  channels : String → Option (List String)

namespace Social

/-- A uid may be joined: it is not ours, and it is a friend above trust 0. -/
def Admits (s : Social) (uid : String) : Prop :=
  uid ≠ s.uid ∧ ∃ f ∈ s.friends uid, 1 ≤ f.2

instance (s : Social) (uid : String) : Decidable (s.Admits uid) :=
  inferInstanceAs (Decidable (_ ∧ ∃ f, f ∈ s.friends uid ∧ _))

/-- The meaning of a logged operation. -/
def apply (s : Social) : WalOperation → Social
  | .addFriend uid addr trust =>
    { s with friends := Function.update s.friends uid (some (addr, min trust 2)) }
  | .removeFriend uid => { s with friends := Function.update s.friends uid none }
  | .updateTrust uid trust =>
    { s with
      friends := Function.update s.friends uid
        ((s.friends uid).map fun f => (f.1, min trust 2)) }
  -- an existing channel keeps its participants
  | .createChannel name =>
    { s with
      channels := Function.update s.channels name
        (some ((s.channels name).getD [s.uid])) }
  | .joinChannel channel uid =>
    if s.Admits uid then
      { s with
        channels := Function.update s.channels channel
          ((s.channels channel).map fun ps => if uid ∈ ps then ps else ps ++ [uid]) }
    else s
  | .leaveChannel channel uid =>
    { s with
      channels := Function.update s.channels channel
        ((s.channels channel).map fun ps => ps.filter (· ≠ uid)) }
  | .setUid uid => { s with uid := uid }
  | _ => s

/-- The meaning of a list of operations. -/
def applyAll (s : Social) (ops : List WalOperation) : Social := ops.foldl apply s

/-- Nothing to replay. -/
@[simp]
theorem applyAll_nil (s : Social) : s.applyAll [] = s := rfl

/-- Operations are replayed from the first one on. -/
@[simp]
theorem applyAll_cons (s : Social) (op : WalOperation) (ops : List WalOperation) :
    s.applyAll (op :: ops) = (s.apply op).applyAll ops := rfl

/-- One log after another. -/
theorem applyAll_append (s : Social) (ops ops' : List WalOperation) :
    s.applyAll (ops ++ ops') = (s.applyAll ops).applyAll ops' := List.foldl_append

/-- The social state of a new bridge. -/
def new (uid : String) : Social := ⟨uid, fun _ => none, fun _ => none⟩

end Social

/-- The social state a snapshot stands for. Later records replace earlier ones. -/
def SocialSnapshot.social (snap : SocialSnapshot) : Social where
  uid := snap.uid
  friends uid :=
    (HashMap.ofPairs (snap.friends.map fun f => (f.uid, (f.addr, min f.trust 2)))).lookup uid
  channels name :=
    (HashMap.ofPairs (snap.channels.map fun c => (c.name, c.participants))).lookup name

namespace Bridge

/-- The social state of a bridge. -/
def social (b : Bridge) : Social where
  uid := b.myUid
  friends uid := (b.friends.lookup uid).map fun f => (f.transportAddress, f.trustLevel)
  channels name := (b.channels.lookup name).map ChannelInfo.participants

/-- What every bridge keeps. -/
structure WellFormed (b : Bridge) : Prop where
  /-- Trust levels are capped. -/
  trust : ∀ uid f, b.friends.lookup uid = some f → f.trustLevel ≤ 2
  /-- A channel is stored under its name. -/
  name : ∀ name ch, b.channels.lookup name = some ch → ch.name = name
  /-- A channel and its group exist together. -/
  group : ∀ name, name ∈ b.groups ↔ name ∈ b.channels
  /-- The trust needed to join. -/
  minTrust : b.minTrust = 1

/-! ## The log is not read by the effects -/

section Frame

variable (prim : Primitives) (b : Bridge) (w : Option WalStore)

/-- A channel is created whatever the log is. -/
theorem createChannelNoLog_wal (name : String) :
    { b with wal := w }.createChannelNoLog prim name =
      { b.createChannelNoLog prim name with wal := w } := by
  unfold createChannelNoLog
  split <;> rfl

/-- Who may join does not depend on the log. -/
theorem joinOne_wal (channel uid : String) :
    { b with wal := w }.joinOne channel uid =
      (b.joinOne channel uid).map fun b' => { b' with wal := w } := by
  unfold joinOne
  cases b.channels.lookup channel <;> cases b.groups.lookup channel <;>
    cases b.friends.lookup uid <;> simp only [guard] <;> (repeat' split) <;> simp

/-- Several joins whatever the log is. -/
theorem joinChannelNoLog_wal (channel : String) (uids : List String) :
    { b with wal := w }.joinChannelNoLog channel uids =
      ({ (b.joinChannelNoLog channel uids).1 with wal := w },
        (b.joinChannelNoLog channel uids).2) := by
  induction uids generalizing b with
  | nil => rfl
  | cons uid uids ih =>
    rw [joinChannelNoLog, joinChannelNoLog, joinOne_wal]
    -- the log has no say in whether `uid` joins, so both loops go on in the same way
    cases b.joinOne channel uid with
    | none => exact ih b
    | some b' => simp [ih b']

end Frame

/-! ## One uid joins -/

section Join

variable {b b' : Bridge} {channel uid : String}

/-- What joining one uid needs and does. -/
theorem joinOne_eq_some (h : b.joinOne channel uid = some b') :
    ∃ ch group f, b.channels.lookup channel = some ch ∧ b.groups.lookup channel = some group ∧
      uid ≠ b.myUid ∧ b.friends.lookup uid = some f ∧ b.minTrust ≤ f.trustLevel ∧
      uid ∉ ch.participants ∧
      b' = { b with
        groups := b.groups.insert channel (group.join f.peerId)
        channels := b.channels.insert channel
          { ch with participants := ch.participants ++ [uid] } } := by
  unfold joinOne at h
  simp only [Option.bind_eq_bind, Option.bind_eq_some_iff, Option.guard_eq_some'] at h
  obtain ⟨ch, hch, group, hgroup, -, huid, f, hf, -, ⟨htrust, hmem⟩, hb'⟩ := h
  exact ⟨ch, group, f, hch, hgroup, huid, hf, htrust, hmem, (Option.some.inj hb').symm⟩

/-- A uid that may join and is not in the channel yet joins. -/
theorem joinOne_isSome {ch : ChannelInfo} {group : DcGroup} {f : F2fFriend}
    (hch : b.channels.lookup channel = some ch) (hgroup : b.groups.lookup channel = some group)
    (huid : uid ≠ b.myUid) (hf : b.friends.lookup uid = some f) (htrust : b.minTrust ≤ f.trustLevel)
    (hmem : uid ∉ ch.participants) : (b.joinOne channel uid).isSome = true := by
  simp [joinOne, hch, hgroup, huid, hf, htrust, hmem, guard]

end Join

/-! ## Well-formedness -/

/-- A new bridge has nothing to check. -/
theorem wellFormed_new (uid : String) : (new uid).WellFormed where
  trust uid f h := by simp [new] at h
  name name ch h := by simp [new] at h
  group name := Iff.rfl
  minTrust := rfl

namespace WellFormed

variable {b b' : Bridge}

/-- Well-formedness does not depend on the log. -/
theorem wal (hb : b.WellFormed) (w : Option WalStore) : { b with wal := w }.WellFormed :=
  ⟨hb.trust, hb.name, hb.group, hb.minTrust⟩

/-- Change the friends. -/
theorem friends (hb : b.WellFormed) {friends : HashMap String F2fFriend}
    (h : ∀ uid f, friends.lookup uid = some f → f.trustLevel ≤ 2) :
    { b with friends := friends }.WellFormed :=
  ⟨h, hb.name, hb.group, hb.minTrust⟩

/-- Change the channels and their groups. -/
theorem channels (hb : b.WellFormed) {channels : HashMap String ChannelInfo}
    {groups : HashMap String DcGroup}
    (hname : ∀ name ch, channels.lookup name = some ch → ch.name = name)
    (hgroup : ∀ name, name ∈ groups ↔ name ∈ channels) :
    { b with channels := channels, groups := groups }.WellFormed :=
  ⟨hb.trust, hname, hgroup, hb.minTrust⟩

/-- The trust of a new friend is capped. -/
theorem insertFriend (hb : b.WellFormed) (prim : Primitives) (fresh : Bytes32) (uid addr : String)
    (trust : UInt8) :
    { b with
      friends := b.friends.insert uid (F2fFriend.new prim fresh uid addr trust) }.WellFormed := by
  refine hb.friends fun uid' f hf => ?_
  rw [HashMap.lookup_insert_ite] at hf
  split at hf
  · rw [← Option.some.inj hf]
    exact Std.min_le_right
  · exact hb.trust uid' f hf

/-- A change of a friend that keeps its trust in range. -/
theorem modifyFriend (hb : b.WellFormed) (uid : String) {g : F2fFriend → F2fFriend}
    (hg : ∀ f, f.trustLevel ≤ 2 → (g f).trustLevel ≤ 2) :
    { b with friends := HashMap.modify b.friends uid g }.WellFormed := by
  refine hb.friends fun uid' f hf => ?_
  rw [HashMap.lookup_modify] at hf
  split at hf
  · obtain ⟨f', hf', rfl⟩ := Option.map_eq_some_iff.mp hf
    exact hg f' (hb.trust uid' f' hf')
  · exact hb.trust uid' f hf

/-- A new channel comes with its group. -/
theorem createChannelNoLog (hb : b.WellFormed) (prim : Primitives) (name : String) :
    (b.createChannelNoLog prim name).WellFormed := by
  unfold Bridge.createChannelNoLog
  split
  · exact hb
  · refine hb.channels (fun name' ch hch => ?_) fun name' => ?_
    · rw [HashMap.lookup_insert_ite] at hch
      split at hch
      next h => rw [← Option.some.inj hch, h]
      next => exact hb.name name' ch hch
    · rw [AList.mem_insert, AList.mem_insert, hb.group]

/-- A join changes a channel and a group that are there. -/
theorem joinOne (hb : b.WellFormed) {channel uid : String}
    (h : b.joinOne channel uid = some b') : b'.WellFormed := by
  obtain ⟨ch, group, f, hch, -, -, -, -, -, rfl⟩ := joinOne_eq_some h
  refine hb.channels (fun name' ch' hch' => ?_) fun name' => ?_
  · rw [HashMap.lookup_insert_ite] at hch'
    split at hch'
    next h =>
      rw [← Option.some.inj hch', h]
      exact hb.name channel ch hch
    next => exact hb.name name' ch' hch'
  · rw [AList.mem_insert, AList.mem_insert, hb.group]

/-- Friends join one after the other. -/
theorem joinChannelNoLog (hb : b.WellFormed) (channel : String) (uids : List String) :
    (b.joinChannelNoLog channel uids).1.WellFormed := by
  induction uids generalizing b with
  | nil => exact hb
  | cons uid uids ih =>
    rw [Bridge.joinChannelNoLog]
    split
    next b' h => exact ih (hb.joinOne h)
    next => exact ih hb

/-- Change one channel and its group in place. -/
theorem modifyChannel (hb : b.WellFormed) (channel : String) {g : ChannelInfo → ChannelInfo}
    (hg : ∀ ch, (g ch).name = ch.name) (g' : DcGroup → DcGroup) :
    { b with
      channels := HashMap.modify b.channels channel g
      groups := HashMap.modify b.groups channel g' }.WellFormed := by
  refine hb.channels (fun name ch hch => ?_) fun name => ?_
  · rw [HashMap.lookup_modify] at hch
    split at hch
    · obtain ⟨ch', hch', rfl⟩ := Option.map_eq_some_iff.mp hch
      rw [hg, hb.name name ch' hch']
    · exact hb.name name ch hch
  · rw [HashMap.mem_modify, HashMap.mem_modify, hb.group]

/-- A participant leaves a channel and a group that stay. -/
theorem removeParticipant (hb : b.WellFormed) (prim : Primitives) (channel uid : String) :
    (b.removeParticipant prim channel uid).WellFormed := by
  unfold Bridge.removeParticipant
  refine hb.modifyChannel channel (g := ?_) ?_ _
  intro ch
  rfl

/-- Every replayed operation keeps a bridge well-formed. -/
theorem applyOpNoLog (hb : b.WellFormed) (prim : Primitives) (fresh : Bytes32)
    (op : WalOperation) : (b.applyOpNoLog prim fresh op).WellFormed := by
  cases op with
  | addFriend uid addr trust => exact hb.insertFriend prim fresh uid addr trust
  | removeFriend uid =>
    refine hb.friends fun uid' f hf => ?_
    rw [HashMap.lookup_erase_ite] at hf
    split at hf
    · cases hf
    · exact hb.trust uid' f hf
  | updateTrust uid trust =>
    exact hb.modifyFriend uid fun f _ => Std.min_le_right
  | updateEdgeKey uid keyHex =>
    rw [Bridge.applyOpNoLog]
    split
    · exact hb.modifyFriend uid fun f hf => hf
    · exact hb
  | createChannel name => exact hb.createChannelNoLog prim name
  | joinChannel channel uid => exact hb.joinChannelNoLog channel [uid]
  | leaveChannel channel uid =>
    rw [Bridge.applyOpNoLog]
    split_ifs
    · exact hb.removeParticipant prim channel b.myUid
    · exact hb.removeParticipant prim channel uid
    · exact hb
  | setUid uid => exact ⟨hb.trust, hb.name, hb.group, hb.minTrust⟩
  | createNetwork | addMember | removeMember | sendMessage => exact hb

/-- A log is replayed operation by operation. -/
theorem applyOps (hb : b.WellFormed) (prim : Primitives) (fresh : ℕ → Bytes32)
    (ops : List WalOperation) : (b.applyOps prim fresh ops).WellFormed := by
  induction ops generalizing b fresh with
  | nil => exact hb
  | cons op ops ih => exact ih (hb.applyOpNoLog prim (fresh 0) op) _

end WellFormed

/-! ## Replay -/

section Replay

variable {b : Bridge} {prim : Primitives} {fresh : Bytes32}

/-- The plain state of a new bridge. -/
@[simp]
theorem social_new (uid : String) : (new uid).social = Social.new uid := rfl

/-- The log is no part of the plain state. -/
@[simp]
theorem social_wal (b : Bridge) (w : Option WalStore) : { b with wal := w }.social = b.social := rfl

/-- A channel is created in the plain state as well. -/
theorem social_createChannelNoLog (name : String) :
    (b.createChannelNoLog prim name).social = b.social.apply (.createChannel name) := by
  refine Social.ext ?_ ?_ (funext fun c => ?_)
  · unfold createChannelNoLog
    split <;> rfl
  · unfold createChannelNoLog
    split <;> rfl
  · simp only [Social.apply, Function.update_apply]
    unfold createChannelNoLog
    by_cases h : name ∈ b.channels
    -- the update of the abstract state writes back what is there
    · obtain ⟨ch, hch⟩ := HashMap.mem_iff_exists_lookup.mp h
      rw [if_pos h]
      split
      next hc => simp [social, hc, hch]
      next => rfl
    · rw [if_neg h]
      have hnone : b.channels.lookup name = none := AList.lookup_eq_none.mpr h
      simp only [social, HashMap.lookup_insert_ite, hnone]
      split <;> rfl

/-- Whom the plain state admits to a channel. -/
theorem admits_social (hb : b.WellFormed) {uid : String} :
    b.social.Admits uid ↔
      uid ≠ b.myUid ∧ ∃ f, b.friends.lookup uid = some f ∧ b.minTrust ≤ f.trustLevel := by
  simp [Social.Admits, social, hb.minTrust]

/-- A join that succeeds is the one of the plain state. -/
theorem social_joinOne (hb : b.WellFormed) {b' : Bridge} {channel uid : String}
    (h : b.joinOne channel uid = some b') :
    b'.social = b.social.apply (.joinChannel channel uid) := by
  obtain ⟨ch, group, f, hch, -, huid, hf, htrust, hmem, rfl⟩ := joinOne_eq_some h
  rw [Social.apply, if_pos ((admits_social hb).mpr ⟨huid, f, hf, htrust⟩)]
  refine Social.ext rfl rfl (funext fun c => ?_)
  simp only [social, Function.update_apply, HashMap.lookup_insert_ite, hch]
  split
  · simp [hmem]
  · rfl

/-- A uid that does not join leaves the participants as they are. -/
theorem social_of_joinOne_eq_none (hb : b.WellFormed) {channel uid : String}
    (h : b.joinOne channel uid = none) : b.social.apply (.joinChannel channel uid) = b.social := by
  rw [Social.apply]
  split
  next hadmits =>
    obtain ⟨huid, f, hf, htrust⟩ := (admits_social hb).mp hadmits
    refine Social.ext rfl rfl (Function.update_eq_self_iff.mpr ?_)
    show ((b.channels.lookup channel).map _).map _ = (b.channels.lookup channel).map _
    cases hch : b.channels.lookup channel with
    | none => rfl
    | some ch =>
      -- an admitted uid fails to join only because it is in the channel already
      have hmem : uid ∈ ch.participants := by
        by_contra hmem
        have hchannel : channel ∈ b.groups :=
          (hb.group channel).mpr (HashMap.mem_iff_exists_lookup.mpr ⟨ch, hch⟩)
        obtain ⟨group, hgroup⟩ := HashMap.mem_iff_exists_lookup.mp hchannel
        have hsome := joinOne_isSome hch hgroup huid hf htrust hmem
        rw [h] at hsome
        cases hsome
      simp [hmem]
  next => rfl

/-- Who leaves is taken out of the plain state as well. -/
theorem social_removeParticipant (channel uid : String) :
    (b.removeParticipant prim channel uid).social = b.social.apply (.leaveChannel channel uid) := by
  refine Social.ext rfl rfl (funext fun c => ?_)
  simp only [removeParticipant, social, Social.apply, HashMap.lookup_modify, Function.update_apply]
  split
  next h => subst h; simp [Function.comp_def]
  next => rfl

/-- A replayed operation acts on the social state. -/
theorem social_applyOpNoLog (hb : b.WellFormed) (op : WalOperation) :
    (b.applyOpNoLog prim fresh op).social = b.social.apply op := by
  cases op with
  | addFriend uid addr trust =>
    refine Social.ext rfl (funext fun u => ?_) rfl
    simp only [applyOpNoLog, social, Social.apply, HashMap.lookup_insert_ite, Function.update_apply]
    split <;> rfl
  | removeFriend uid =>
    refine Social.ext rfl (funext fun u => ?_) rfl
    simp only [applyOpNoLog, social, Social.apply, HashMap.lookup_erase_ite, Function.update_apply]
    split <;> rfl
  | updateTrust uid trust =>
    refine Social.ext rfl (funext fun u => ?_) rfl
    simp only [applyOpNoLog, social, Social.apply, HashMap.lookup_modify, Function.update_apply]
    split
    next h => subst h; simp [Function.comp_def]
    next => rfl
  | updateEdgeKey uid keyHex =>
    -- edge keys are not part of the social state
    rw [applyOpNoLog]
    split
    · refine Social.ext rfl (funext fun u => ?_) rfl
      exact HashMap.map_lookup_modify b.friends uid u fun f => rfl
    · rfl
  | createChannel name => exact social_createChannelNoLog name
  | joinChannel channel uid =>
    rw [applyOpNoLog, joinChannelNoLog]
    split
    next b' h => exact social_joinOne hb h
    next h => exact (social_of_joinOne_eq_none hb h).symm
  | leaveChannel channel uid =>
    rw [applyOpNoLog]
    split_ifs with huid hch
    · rw [huid]
      exact social_removeParticipant channel b.myUid
    · exact social_removeParticipant channel uid
    -- there is no such channel to leave
    · have hnone : b.channels.lookup channel = none := AList.lookup_eq_none.mpr hch
      refine Social.ext rfl rfl (Function.update_eq_self_iff.mpr ?_).symm
      simp [social, hnone]
  | setUid uid => rfl
  | createNetwork | addMember | removeMember | sendMessage => rfl

/-- Replayed operations act on the social state. -/
theorem social_applyOps (hb : b.WellFormed) (fresh : ℕ → Bytes32) (ops : List WalOperation) :
    (b.applyOps prim fresh ops).social = b.social.applyAll ops := by
  induction ops generalizing b fresh with
  | nil => rfl
  | cons op ops ih =>
    rw [applyOps, ih (hb.applyOpNoLog prim (fresh 0) op), social_applyOpNoLog hb]
    rfl

end Replay

/-! ## Snapshots -/

section Snapshot

variable {b : Bridge} {prim : Primitives}

/-- Records with readable edge keys are inserted as they are; no key is drawn. -/
theorem insertFriends_eq {records : List FriendRecord} {key : FriendRecord → Bytes32}
    (hkey : ∀ f ∈ records, f.edgeKeyHex.bind edgeKeyFromHex = some (key f)) (fresh : ℕ → Bytes32)
    (friends : HashMap String F2fFriend) :
    insertFriends prim fresh friends records =
      (records.map fun f => (f.uid, F2fFriend.new prim (key f) f.uid f.addr f.trust)).foldl
        (fun m p => m.insert p.1 p.2) friends := by
  induction records generalizing fresh friends with
  | nil => rfl
  | cons f records ih =>
    rw [insertFriends, hkey f List.mem_cons_self,
      ih fun f' hf' => hkey f' (List.mem_cons_of_mem f hf')]
    rfl

/-- A restored channel brings no friends. -/
theorem restoreChannel_friends (b : Bridge) (c : ChannelRecord) :
    (b.restoreChannel prim c).friends = b.friends := by
  unfold restoreChannel createChannelNoLog
  split <;> rfl

/-- Restored channels bring no friends. -/
theorem foldl_restoreChannel_friends (b : Bridge) (records : List ChannelRecord) :
    (records.foldl (fun b c => b.restoreChannel prim c) b).friends = b.friends := by
  induction records generalizing b with
  | nil => rfl
  | cons c records ih => rw [List.foldl_cons, ih, restoreChannel_friends]

/-- The friends come back with their addresses, trust levels and edge keys. -/
theorem lookup_friends_applySnapshot (b₀ : Bridge) (fresh : ℕ → Bytes32) (uid : String) :
    (b₀.applySnapshot prim fresh b.snapshot).friends.lookup uid =
      (b.friends.lookup uid).map fun f =>
        F2fFriend.new prim f.edgeKey uid f.transportAddress f.trustLevel := by
  rw [applySnapshot, foldl_restoreChannel_friends]
  -- every record of a snapshot holds the hex form of a key
  have hkey : ∀ f ∈ b.snapshot.friends,
      f.edgeKeyHex.bind edgeKeyFromHex =
        some ((f.edgeKeyHex.bind edgeKeyFromHex).getD (Vector.replicate 32 0)) := by
    intro f hf
    obtain ⟨p, -, rfl⟩ := List.mem_map.mp hf
    simp
  show (insertFriends prim fresh ∅ b.snapshot.friends).lookup uid = _
  rw [insertFriends_eq hkey]
  refine Eq.trans ?_ (HashMap.lookup_ofPairs_pairs b.friends (fun uid f =>
    F2fFriend.new prim f.edgeKey uid f.transportAddress f.trustLevel) uid)
  simp [snapshot, HashMap.ofPairs, Function.comp_def]

/-- A restored channel has the participants of its record, whatever was there before. -/
theorem social_restoreChannel (b : Bridge) (c : ChannelRecord) :
    (b.restoreChannel prim c).social =
      { b.social with
        channels := Function.update b.social.channels c.name (some c.participants) } := by
  have hcreate := @social_createChannelNoLog b prim c.name
  have hchannels (n : String) := congrFun (congrArg Social.channels hcreate) n
  refine Social.ext ?_ ?_ (funext fun n => ?_)
  · exact (congrArg Social.uid hcreate :)
  · exact (congrArg Social.friends hcreate :)
  · show ((HashMap.modify _ c.name _).lookup n).map ChannelInfo.participants = _
    rw [HashMap.lookup_modify]
    have hn := hchannels n
    simp only [Social.apply, Function.update_apply] at hn ⊢
    split
    next h =>
      -- the channel exists once it has been created, so the modification takes place
      rw [if_pos h] at hn
      obtain ⟨ch, hch, -⟩ := Option.map_eq_some_iff.mp hn
      rw [hch]
      rfl
    next h =>
      rw [if_neg h] at hn
      exact hn

/-- The channels of a snapshot are restored one after the other. -/
theorem social_foldl_restoreChannel (b : Bridge) (records : List ChannelRecord)
    (m : HashMap String (List String)) (hm : ∀ n, b.social.channels n = m.lookup n) :
    (records.foldl (fun b c => b.restoreChannel prim c) b).social =
      { b.social with
        channels := fun n => ((records.map fun c => (c.name, c.participants)).foldl
          (fun m p => m.insert p.1 p.2) m).lookup n } := by
  -- the table `m` follows the channels of the bridge record by record
  induction records generalizing b m with
  | nil => exact Social.ext rfl rfl (funext hm)
  | cons c records ih =>
    rw [List.foldl_cons, ih _ (m.insert c.name c.participants), social_restoreChannel]
    · rfl
    · intro n
      rw [social_restoreChannel, HashMap.lookup_insert_ite, ← hm n]
      simp only [Function.update_apply]

/-- The friends of a snapshot are restored one after the other, whatever keys are drawn. -/
theorem lookup_insertFriends (fresh : ℕ → Bytes32) (records : List FriendRecord)
    (friends : HashMap String F2fFriend) (m : HashMap String (String × UInt8))
    (hm : ∀ u, (friends.lookup u).map (fun f => (f.transportAddress, f.trustLevel)) = m.lookup u)
    (uid : String) :
    ((insertFriends prim fresh friends records).lookup uid).map
        (fun f => (f.transportAddress, f.trustLevel)) =
      ((records.map fun f => (f.uid, (f.addr, min f.trust 2))).foldl
        (fun m p => m.insert p.1 p.2) m).lookup uid := by
  induction records generalizing fresh friends m with
  | nil => exact hm uid
  | cons f records ih =>
    refine ih _ _ (m.insert f.uid (f.addr, min f.trust 2)) fun u => ?_
    rw [HashMap.lookup_insert_ite, HashMap.lookup_insert_ite, ← hm u]
    split <;> rfl

/-- A bridge rebuilt from a snapshot has the social state the snapshot stands for. -/
theorem social_applySnapshot (b₀ : Bridge) (fresh : ℕ → Bytes32) (snap : SocialSnapshot) :
    (b₀.applySnapshot prim fresh snap).social = snap.social := by
  rw [applySnapshot, social_foldl_restoreChannel _ _ ∅ fun n => rfl]
  refine Social.ext rfl (funext fun uid => ?_) rfl
  exact lookup_insertFriends fresh snap.friends ∅ ∅ (fun _ => rfl) uid

/-- A snapshot stands for the social state it was taken of. -/
theorem social_snapshot (hb : b.WellFormed) : b.snapshot.social = b.social := by
  refine Social.ext rfl (funext fun uid => ?_) (funext fun n => ?_)
  -- the cap on the trust levels changes nothing, since they were capped before
  · have hpairs : (b.snapshot.friends.map fun f => (f.uid, (f.addr, min f.trust 2))) =
        (HashMap.pairs b.friends).map fun p =>
          (p.1, (p.2.transportAddress, p.2.trustLevel)) := by
      simp only [snapshot, List.map_map, Function.comp_def]
      refine List.map_congr_left fun p hp => ?_
      rw [Std.min_eq_if, if_pos (hb.trust p.1 p.2 (HashMap.mem_pairs_iff.mp hp))]
    show (HashMap.ofPairs (b.snapshot.friends.map _)).lookup uid = _
    rw [hpairs,
      HashMap.lookup_ofPairs_pairs b.friends fun _ f => (f.transportAddress, f.trustLevel)]
    rfl
  -- a record carries the name the channel is stored under
  · have hpairs : (b.snapshot.channels.map fun c => (c.name, c.participants)) =
        (HashMap.pairs b.channels).map fun p => (p.1, p.2.participants) := by
      simp only [snapshot, HashMap.values, List.map_map, Function.comp_def]
      refine List.map_congr_left fun p hp => ?_
      rw [hb.name p.1 p.2 (HashMap.mem_pairs_iff.mp hp)]
    show (HashMap.ofPairs (b.snapshot.channels.map _)).lookup n = _
    rw [hpairs, HashMap.lookup_ofPairs_pairs b.channels fun _ ch => ch.participants]
    rfl

/-- The trust of restored friends is capped. -/
theorem trust_insertFriends (fresh : ℕ → Bytes32) {friends : HashMap String F2fFriend}
    (h : ∀ uid f, friends.lookup uid = some f → f.trustLevel ≤ 2) (records : List FriendRecord) :
    ∀ uid f, (insertFriends prim fresh friends records).lookup uid = some f →
      f.trustLevel ≤ 2 := by
  induction records generalizing fresh friends with
  | nil => exact h
  | cons record records ih =>
    refine ih _ fun uid f hf => ?_
    rw [HashMap.lookup_insert_ite] at hf
    split at hf
    · rw [← Option.some.inj hf]
      exact Std.min_le_right
    · exact h uid f hf

/-- Restored channels come with their groups. -/
theorem WellFormed.foldl_restoreChannel (hb : b.WellFormed) (records : List ChannelRecord) :
    (records.foldl (fun b c => b.restoreChannel prim c) b).WellFormed := by
  induction records generalizing b with
  | nil => exact hb
  | cons c records ih =>
    refine ih ?_
    unfold restoreChannel
    refine (hb.createChannelNoLog prim c.name).modifyChannel c.name (g := ?_) ?_ _
    intro ch
    rfl

/-- Whatever snapshot is read, the bridge rebuilt from it is well-formed. -/
theorem WellFormed.applySnapshot (hb : b.WellFormed) (fresh : ℕ → Bytes32) (snap : SocialSnapshot) :
    (b.applySnapshot prim fresh snap).WellFormed := by
  refine WellFormed.foldl_restoreChannel ?_ _
  constructor
  · exact trust_insertFriends fresh (fun uid f h => by simp at h) snap.friends
  · intro name ch h
    simp at h
  · exact fun _ => Iff.rfl
  · exact hb.minTrust

end Snapshot

/-! ## Calls -/

end Bridge

/-- What `log_wal` does to the store, with the snapshot of the bridge. -/
def WalStore.logWal (serde : Serde) (snap : SocialSnapshot) (w : WalStore) (tick : Tick)
    (op : WalOperation) : WalStore :=
  let w := w.append serde tick.timestamp op
  if w.shouldCheckpoint tick.now then w.checkpoint serde snap tick.now else w

/-- What logging several operations does to the store. -/
def WalStore.logAll (serde : Serde) (snap : SocialSnapshot) (w : WalStore) (tick : ℕ → Tick) :
    List WalOperation → WalStore
  | [] => w
  | op :: ops => logAll serde snap (w.logWal serde snap (tick 0) op) (fun i => tick (i + 1)) ops

namespace Bridge

section Calls

variable {b : Bridge} {prim : Primitives} {serde : Serde}

/-- The entries a call logs. -/
def entries (b : Bridge) : Call → List WalOperation
  | .addFriend uid addr trust => [.addFriend uid addr trust]
  | .removeFriend uid => [.removeFriend uid]
  | .updateTrust uid trust => [.updateTrust uid trust]
  | .setEdgeKey uid key =>
    if uid ∈ b.friends then [.updateEdgeKey uid (edgeKeyToHex key)] else []
  | .importEdgeKey uid hex =>
    match edgeKeyFromHex hex with
    | some key => if uid ∈ b.friends then [.updateEdgeKey uid (edgeKeyToHex key)] else []
    | none => []
  | .createChannel name => if name ∈ b.channels then [] else [.createChannel name]
  | .joinChannel channel uids =>
    (uids.filter (b.logsJoin channel)).map (WalOperation.joinChannel channel)
  | .leaveChannel name => [.leaveChannel name b.myUid]
  | .setMyUid uid => [.setUid uid]

/-- Logging changes the log only. -/
theorem logWal_eq (tick : Tick) (b : Bridge) (op : WalOperation) :
    b.logWal serde tick op =
      { b with wal := b.wal.map fun w => w.logWal serde b.snapshot tick op } := by
  cases h : b.wal with
  | none =>
    simp only [logWal, h, Option.map_none]
    rw [← h]
  | some w =>
    simp only [logWal, h, Option.map_some, WalStore.logWal]
    split <;> rfl

/-- To log is to change the log alone. -/
theorem logAll_eq (tick : ℕ → Tick) (b : Bridge) (ops : List WalOperation) :
    b.logAll serde tick ops =
      { b with wal := b.wal.map fun w => w.logAll serde b.snapshot tick ops } := by
  induction ops generalizing b tick with
  | nil => simp [logAll, WalStore.logAll]
  | cons op ops ih =>
    rw [logAll, ih, logWal_eq]
    simp only [Option.map_map]
    rfl

/-- A uid whose joining is not logged does not join, now or after others have joined. -/
theorem joinOne_eq_none_of_not_logsJoin {channel uid : String}
    (h : b.logsJoin channel uid = false) : b.joinOne channel uid = none := by
  by_contra hne
  obtain ⟨b', hb'⟩ := Option.ne_none_iff_exists'.mp hne
  obtain ⟨ch, group, f, hch, -, -, hf, -, hmem, -⟩ := joinOne_eq_some hb'
  have hfriend : uid ∈ b.friends := HashMap.mem_iff_exists_lookup.mpr ⟨f, hf⟩
  simp [logsJoin, hch, hmem, hfriend] at h

/-- Who joins leaves the other joins to be logged as before. -/
theorem logsJoin_joinOne {b' : Bridge} {channel uid uid' : String}
    (h : b.joinOne channel uid = some b') (hlogs : b'.logsJoin channel uid' = true) :
    b.logsJoin channel uid' = true := by
  obtain ⟨ch, group, f, hch, -, -, -, -, -, rfl⟩ := joinOne_eq_some h
  simp only [logsJoin, AList.lookup_insert, Bool.and_eq_true, decide_eq_true_eq, Option.map_some,
    Option.some.injEq, hch] at hlogs ⊢
  simp_all

/-- Joining the uids is replaying the logged joins: the others do not join anyway. -/
theorem joinChannelNoLog_filter {b₀ : Bridge} {channel : String} (fresh : ℕ → Bytes32)
    (hb : ∀ uid, b.logsJoin channel uid = true → b₀.logsJoin channel uid = true)
    (uids : List String) :
    (b.joinChannelNoLog channel uids).1 = b.applyOps prim fresh
      ((uids.filter (b₀.logsJoin channel)).map (WalOperation.joinChannel channel)) := by
  -- `b₀` is the state in which the log entries were chosen, `b` the one the loop has reached
  induction uids generalizing b fresh with
  | nil => rfl
  | cons uid uids ih =>
    rw [joinChannelNoLog, List.filter_cons]
    cases hjoin : b.joinOne channel uid with
    | none =>
      cases b₀.logsJoin channel uid with
      | false => exact ih fresh hb
      | true =>
        -- logged without joining: its trust is too low, or it is our own uid
        rw [if_pos rfl, List.map_cons, applyOps, applyOpNoLog, joinChannelNoLog, hjoin]
        exact ih _ hb
    | some b' =>
      have hlogs : b₀.logsJoin channel uid = true := by
        by_contra hnot
        have hnone := @joinOne_eq_none_of_not_logsJoin b channel uid
          (by simpa using fun h => hnot (hb uid h))
        rw [hnone] at hjoin
        cases hjoin
      rw [hlogs, if_pos rfl, List.map_cons, applyOps, applyOpNoLog, joinChannelNoLog, hjoin]
      exact ih _ fun uid' h => hb uid' (logsJoin_joinOne hjoin h)

/-- A call changes the memory as replaying its own log entries would, and the log by these
entries. -/
theorem apply_eq (b : Bridge) (i : Input) :
    b.apply prim serde i =
      { b.applyOps prim (fun _ => i.fresh) (b.entries i.call) with
        wal := b.wal.map fun w => w.logAll serde b.snapshot i.tick (b.entries i.call) } := by
  obtain ⟨call, fresh, tick⟩ := i
  -- an imported key takes the path of `set_edge_key`
  have hset (uid : String) (key : Bytes32) :
      (b.setEdgeKey serde tick uid key).1 =
        { b.applyOps prim (fun _ => fresh) (b.entries (.setEdgeKey uid key)) with
          wal := b.wal.map fun w =>
            w.logAll serde b.snapshot tick (b.entries (.setEdgeKey uid key)) } := by
    rw [setEdgeKey, entries]
    by_cases h : uid ∈ b.friends
    · simp [h, logWal_eq, applyOps, applyOpNoLog, WalStore.logAll]
    · simp [h, applyOps, WalStore.logAll]
  cases call with
  | addFriend | removeFriend | updateTrust | setMyUid =>
    simp [apply, addFriend, removeFriend, updateTrust, setMyUid, entries, logWal_eq, applyOps,
      applyOpNoLog, WalStore.logAll]
  | setEdgeKey uid key => exact hset uid key
  | importEdgeKey uid hex =>
    cases h : edgeKeyFromHex hex with
    | none => simp [apply, importEdgeKey, entries, h, applyOps, WalStore.logAll]
    | some key =>
      have hkey := hset uid key
      simpa only [apply, importEdgeKey, entries, h] using hkey
  | createChannel name =>
    simp only [apply, createChannel, entries]
    by_cases h : name ∈ b.channels
    · simp [h, applyOps, WalStore.logAll]
    · simp [h, logWal_eq, createChannelNoLog_wal, applyOps, applyOpNoLog, WalStore.logAll]
  | joinChannel channel uids =>
    simp only [apply, joinChannel, entries]
    rw [logAll_eq, joinChannelNoLog_wal, joinChannelNoLog_filter _ fun _ h => h]
  | leaveChannel name =>
    simp [apply, leaveChannel, entries, logWal_eq, applyOps, applyOpNoLog, WalStore.logAll,
      leaveChannelNoLog, removeParticipant]

/-- Every call keeps a bridge well-formed. -/
theorem WellFormed.apply (hb : b.WellFormed) (i : Input) : (b.apply prim serde i).WellFormed := by
  rw [apply_eq]
  exact (hb.applyOps prim _ _).wal _

/-- Every run keeps a bridge well-formed. -/
theorem WellFormed.run (hb : b.WellFormed) (inputs : List Input) :
    (b.run prim serde inputs).WellFormed := by
  induction inputs generalizing b with
  | nil => exact hb
  | cons i inputs ih => exact ih (hb.apply i)

/-- A call does to the plain state what its entries say. -/
theorem social_apply (hb : b.WellFormed) (i : Input) :
    (b.apply prim serde i).social = b.social.applyAll (b.entries i.call) := by
  rw [apply_eq, social_wal, social_applyOps hb]

/-- The operations a run logs. -/
def logged (prim : Primitives) (serde : Serde) : Bridge → List Input → List WalOperation
  | _, [] => []
  | b, i :: inputs => b.entries i.call ++ logged prim serde (b.apply prim serde i) inputs

/-- Replaying what a run has logged leads to where the run led. -/
theorem social_run (hb : b.WellFormed) (inputs : List Input) :
    (b.run prim serde inputs).social = b.social.applyAll (b.logged prim serde inputs) := by
  induction inputs generalizing b with
  | nil => rfl
  | cons i inputs ih =>
    rw [logged, Social.applyAll_append, ← social_apply hb]
    exact ih (hb.apply i)

end Calls

end Bridge

end ChronoShift
