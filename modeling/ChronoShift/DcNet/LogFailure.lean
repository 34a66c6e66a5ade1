import ChronoShift.DcNet.Social

/-!
# Failing logs

The logged operations over a disk that may fail. An append fails with some part of its line
written, a checkpoint fails and leaves any files behind. `log_wal` reports an error to the program's
own log and returns nothing, so the operations go on as if the entry had been written.

* `Bridge.sameMemory_applyOn`: whatever the disk does, the memory changes as without failures;
* `Bridge.unchanged_on_failure_iff`: a call whose entry is not written leaves the memory as it was
  only if it would have done so anyway.
-/

namespace ChronoShift

open ToMathlib

/-- How appending a line ends. -/
inductive AppendOutcome where
  /-- The line is written and synced. -/
  | ok
  /-- An error is returned, with the first `written` bytes of the line in the file. -/
  | err (written : ℕ)

/-- How a checkpoint ends. -/
inductive CheckpointOutcome where
  | ok
  /-- An error is returned, with the files as they are left. -/
  | err (left : DataDir)

/-- What the disk does with one entry. -/
structure DiskOutcome where
  append : AppendOutcome
  checkpoint : CheckpointOutcome

namespace WalStore

/-- Append one operation, if the disk lets us. -/
def tryAppend (serde : Serde) (w : WalStore) (timestamp : ℕ) (op : WalOperation) :
    AppendOutcome → WalStore
  | .ok => w.append serde timestamp op
  -- an operation that fails is not counted
  | .err written => { w with
      dir := { w.dir with log := w.dir.log ++ (walLine serde timestamp op).take written } }

/-- Write a snapshot and truncate the log, if the disk lets us. -/
def tryCheckpoint (serde : Serde) (w : WalStore) (snapshot : SocialSnapshot) (now : ℕ) :
    CheckpointOutcome → WalStore
  | .ok => w.checkpoint serde snapshot now
  | .err left => { w with dir := left }

end WalStore

namespace Bridge

/-- Append an operation to the log, if there is one, and take a checkpoint when it is due. -/
def logWalOn (serde : Serde) (tick : Tick) (disk : DiskOutcome) (b : Bridge) (op : WalOperation) :
    Bridge :=
  match b.wal with
  | none => b
  | some wal =>
    -- an error is only reported, and the caller does not learn of it
    let wal := wal.tryAppend serde tick.timestamp op disk.append
    if wal.shouldCheckpoint tick.now then
      { b with wal := some (wal.tryCheckpoint serde b.snapshot tick.now disk.checkpoint) }
    else { b with wal := some wal }

/-- Append operations one after the other, each with its own outcome. -/
def logAllOn (serde : Serde) (tick : ℕ → Tick) (disk : ℕ → DiskOutcome) (b : Bridge) :
    List WalOperation → Bridge
  | [] => b
  | op :: ops => logAllOn serde (fun i => tick (i + 1)) (fun i => disk (i + 1))
      (b.logWalOn serde (tick 0) (disk 0) op) ops

/-- Replace the edge key of a friend. -/
def setEdgeKeyOn (serde : Serde) (tick : ℕ → Tick) (disk : ℕ → DiskOutcome) (b : Bridge)
    (uid : String) (key : Bytes32) : Bridge × Bool :=
  if uid ∉ b.friends then (b, false)
  else
    let b := b.logWalOn serde (tick 0) (disk 0) (.updateEdgeKey uid (edgeKeyToHex key))
    ({ b with friends := HashMap.modify b.friends uid fun f => { f with edgeKey := key } }, true)

/-- Carry out a call. What the disk does with its `i`-th entry is `disk i`. -/
def applyOn (prim : Primitives) (serde : Serde) (disk : ℕ → DiskOutcome) (b : Bridge)
    (i : Input) : Bridge :=
  match i.call with
  | .addFriend uid addr trust =>
    let b := b.logWalOn serde (i.tick 0) (disk 0) (.addFriend uid addr trust)
    { b with friends := b.friends.insert uid (F2fFriend.new prim i.fresh uid addr trust) }
  | .removeFriend uid =>
    let b := b.logWalOn serde (i.tick 0) (disk 0) (.removeFriend uid)
    { b with friends := b.friends.erase uid }
  | .updateTrust uid trust =>
    let b := b.logWalOn serde (i.tick 0) (disk 0) (.updateTrust uid trust)
    { b with
      friends := HashMap.modify b.friends uid fun f => { f with trustLevel := min trust 2 } }
  | .setEdgeKey uid key => (b.setEdgeKeyOn serde i.tick disk uid key).1
  | .importEdgeKey uid hex =>
    match edgeKeyFromHex hex with
    | some key => (b.setEdgeKeyOn serde i.tick disk uid key).1
    | none => b
  | .createChannel name =>
    if name ∈ b.channels then b
    else (b.logWalOn serde (i.tick 0) (disk 0) (.createChannel name)).createChannelNoLog prim name
  | .joinChannel channel uids =>
    let ops := (uids.filter (b.logsJoin channel)).map (WalOperation.joinChannel channel)
    ((b.logAllOn serde i.tick disk ops).joinChannelNoLog channel uids).1
  | .leaveChannel name =>
    (b.logWalOn serde (i.tick 0) (disk 0) (.leaveChannel name b.myUid)).leaveChannelNoLog prim name
  | .setMyUid uid => { b.logWalOn serde (i.tick 0) (disk 0) (.setUid uid) with myUid := uid }

variable {prim : Primitives} {serde : Serde} {b : Bridge} {disk : ℕ → DiskOutcome}

/-! ## The memory does not depend on the disk -/

/-- Whatever the disk does, an entry changes the log alone. -/
theorem exists_logWalOn_eq (tick : Tick) (outcome : DiskOutcome) (b : Bridge) (op : WalOperation) :
    ∃ w, b.logWalOn serde tick outcome op = { b with wal := w } := by
  unfold logWalOn
  split
  · exact ⟨b.wal, rfl⟩
  · dsimp only
    split
    · exact ⟨_, rfl⟩
    · exact ⟨_, rfl⟩

/-- Whatever the disk does, several entries change the log alone. -/
theorem exists_logAllOn_eq (tick : ℕ → Tick) (disk : ℕ → DiskOutcome) (b : Bridge)
    (ops : List WalOperation) : ∃ w, b.logAllOn serde tick disk ops = { b with wal := w } := by
  induction ops generalizing b tick disk with
  | nil => exact ⟨b.wal, rfl⟩
  | cons op ops ih =>
    obtain ⟨w, hw⟩ := @exists_logWalOn_eq serde (tick 0) (disk 0) b op
    rw [logAllOn, hw]
    exact ih _ _ _

/-- Whatever the disk does, a call changes the memory as replaying its entries would. -/
theorem exists_applyOn_eq (b : Bridge) (i : Input) : ∃ w, b.applyOn prim serde disk i =
    { b.applyOps prim (fun _ => i.fresh) (b.entries i.call) with wal := w } := by
  obtain ⟨call, fresh, tick⟩ := i
  -- both ways to set a key end in `set_edge_key`
  have hset (uid : String) (key : Bytes32) : ∃ w, (b.setEdgeKeyOn serde tick disk uid key).1 =
      { b.applyOps prim (fun _ => fresh) (b.entries (.setEdgeKey uid key)) with wal := w } := by
    obtain ⟨w, hw⟩ := @exists_logWalOn_eq serde (tick 0) (disk 0) b
      (.updateEdgeKey uid (edgeKeyToHex key))
    rw [setEdgeKeyOn, entries, hw]
    by_cases h : uid ∈ b.friends
    · exact ⟨w, by simp [h, applyOps, applyOpNoLog]⟩
    · exact ⟨b.wal, by simp [h, applyOps]⟩
  cases call with
  | addFriend uid addr trust =>
    obtain ⟨w, hw⟩ := @exists_logWalOn_eq serde (tick 0) (disk 0) b (.addFriend uid addr trust)
    exact ⟨w, by simp [applyOn, entries, hw, applyOps, applyOpNoLog]⟩
  | removeFriend uid =>
    obtain ⟨w, hw⟩ := @exists_logWalOn_eq serde (tick 0) (disk 0) b (.removeFriend uid)
    exact ⟨w, by simp [applyOn, entries, hw, applyOps, applyOpNoLog]⟩
  | updateTrust uid trust =>
    obtain ⟨w, hw⟩ := @exists_logWalOn_eq serde (tick 0) (disk 0) b (.updateTrust uid trust)
    exact ⟨w, by simp [applyOn, entries, hw, applyOps, applyOpNoLog]⟩
  | setEdgeKey uid key => exact hset uid key
  | importEdgeKey uid hex =>
    cases h : edgeKeyFromHex hex with
    | none => exact ⟨b.wal, by simp [applyOn, entries, h, applyOps]⟩
    | some key =>
      obtain ⟨w, hw⟩ := hset uid key
      exact ⟨w, by simpa only [applyOn, entries, h] using hw⟩
  | createChannel name =>
    obtain ⟨w, hw⟩ := @exists_logWalOn_eq serde (tick 0) (disk 0) b (.createChannel name)
    by_cases h : name ∈ b.channels
    · exact ⟨b.wal, by simp [applyOn, entries, h, applyOps]⟩
    · exact ⟨w, by
        simp [applyOn, entries, h, hw, createChannelNoLog_wal, applyOps, applyOpNoLog]⟩
  | joinChannel channel uids =>
    obtain ⟨w, hw⟩ := @exists_logAllOn_eq serde tick disk b
      ((uids.filter (b.logsJoin channel)).map (WalOperation.joinChannel channel))
    refine ⟨w, ?_⟩
    simp only [applyOn, entries]
    -- who is not logged does not join
    rw [hw, joinChannelNoLog_wal, joinChannelNoLog_filter _ fun _ h => h]
  | leaveChannel name =>
    obtain ⟨w, hw⟩ := @exists_logWalOn_eq serde (tick 0) (disk 0) b (.leaveChannel name b.myUid)
    exact ⟨w, by simp [applyOn, entries, hw, applyOps, applyOpNoLog, leaveChannelNoLog,
      removeParticipant]⟩
  | setMyUid uid =>
    obtain ⟨w, hw⟩ := @exists_logWalOn_eq serde (tick 0) (disk 0) b (.setUid uid)
    exact ⟨w, by simp [applyOn, entries, hw, applyOps, applyOpNoLog]⟩

/-- On a disk that works an entry is logged as usual. -/
theorem logWalOn_of_ok (tick : Tick) {outcome : DiskOutcome} (h : outcome = ⟨.ok, .ok⟩)
    (b : Bridge) (op : WalOperation) :
    b.logWalOn serde tick outcome op = b.logWal serde tick op := by
  rw [h]
  rfl

/-- On a disk that works several entries are logged as usual. -/
theorem logAllOn_of_ok (tick : ℕ → Tick) (h : ∀ i, disk i = ⟨.ok, .ok⟩) (b : Bridge)
    (ops : List WalOperation) : b.logAllOn serde tick disk ops = b.logAll serde tick ops := by
  induction ops generalizing b tick disk with
  | nil => rfl
  | cons op ops ih =>
    rw [logAllOn, logWalOn_of_ok _ (h 0), ih _ fun i => h (i + 1)]
    rfl

/-- On a disk that never fails the calls are those of `Bridge.apply`. -/
theorem applyOn_of_ok (h : ∀ i, disk i = ⟨.ok, .ok⟩) (b : Bridge) (i : Input) :
    b.applyOn prim serde disk i = b.apply prim serde i := by
  have hset (tick : ℕ → Tick) (uid : String) (key : Bytes32) :
      b.setEdgeKeyOn serde tick disk uid key = b.setEdgeKey serde tick uid key := by
    rw [setEdgeKeyOn, logWalOn_of_ok _ (h 0)]
    rfl
  obtain ⟨call, fresh, tick⟩ := i
  cases call with
  | setEdgeKey uid key => simp only [applyOn, hset, apply]
  | importEdgeKey uid hex =>
    simp only [applyOn, hset, apply, importEdgeKey]
    cases edgeKeyFromHex hex <;> rfl
  | createChannel name =>
    simp only [applyOn, logWalOn_of_ok _ (h 0), apply, createChannel]
    split <;> rfl
  | joinChannel channel uids =>
    simp only [applyOn, logAllOn_of_ok _ h]
    rfl
  | _ =>
    simp only [applyOn, logWalOn_of_ok _ (h 0)]
    rfl

/-! ## Calls without effect -/

/-- The friends, channels, groups and our uid are the same. -/
structure SameMemory (b b' : Bridge) : Prop where
  friends : ∀ uid, b'.friends.lookup uid = b.friends.lookup uid
  channels : ∀ name, b'.channels.lookup name = b.channels.lookup name
  groups : ∀ name, b'.groups.lookup name = b.groups.lookup name
  myUid : b'.myUid = b.myUid

/-- A log is attached, and appending one of the entries of the call fails. -/
def AppendFails (disk : ℕ → DiskOutcome) (b : Bridge) (call : Call) : Prop :=
  b.wal.isSome = true ∧ ∃ k < (b.entries call).length, ∃ written, (disk k).append = .err written

/-- The uid can join the channel: it is not ours, it is a friend of sufficient trust, and it is not
in the channel yet. -/
def CanJoin (b : Bridge) (channel uid : String) : Prop :=
  ∃ ch group f, b.channels.lookup channel = some ch ∧ b.groups.lookup channel = some group ∧
    uid ≠ b.myUid ∧ b.friends.lookup uid = some f ∧ b.minTrust ≤ f.trustLevel ∧
    uid ∉ ch.participants

/-- The call finds the state that it is to bring about: the friend is there with its address, trust
and key, or is no friend; the channel exists; nobody can join; we are not in the channel; the uid is
ours already. -/
def NoEffect (prim : Primitives) (b : Bridge) (i : Input) : Prop :=
  match i.call with
  | .addFriend uid addr trust =>
    b.friends.lookup uid = some (F2fFriend.new prim i.fresh uid addr trust)
  | .removeFriend uid => uid ∉ b.friends
  | .updateTrust uid trust => ∀ f, b.friends.lookup uid = some f → f.trustLevel = min trust 2
  | .setEdgeKey uid key => ∀ f, b.friends.lookup uid = some f → f.edgeKey = key
  | .importEdgeKey uid hex => ∀ key, edgeKeyFromHex hex = some key →
      ∀ f, b.friends.lookup uid = some f → f.edgeKey = key
  | .createChannel name => name ∈ b.channels
  | .joinChannel channel uids => ∀ uid ∈ uids, ¬ b.CanJoin channel uid
  | .leaveChannel name =>
    (∀ ch, b.channels.lookup name = some ch → b.myUid ∉ ch.participants) ∧
      ∀ g, b.groups.lookup name = some g → peerIdOf prim b.myUid ∉ g.peerIds
  | .setMyUid uid => uid = b.myUid

section Effects

variable {w : Option WalStore}

/-- The log is not part of the memory. -/
theorem sameMemory_wal : SameMemory b { b with wal := w } :=
  ⟨fun _ => rfl, fun _ => rfl, fun _ => rfl, rfl⟩

/-- Whatever the disk does, the memory after a call is that of `Bridge.apply`. -/
theorem sameMemory_applyOn (disk : ℕ → DiskOutcome) (b : Bridge) (i : Input) :
    SameMemory (b.apply prim serde i) (b.applyOn prim serde disk i) := by
  obtain ⟨w, hw⟩ := @exists_applyOn_eq prim serde disk b i
  obtain ⟨w', hw'⟩ := @exists_applyOn_eq prim serde (fun _ => ⟨.ok, .ok⟩) b i
  rw [← applyOn_of_ok (fun _ => rfl) b i, hw, hw']
  exact ⟨fun _ => rfl, fun _ => rfl, fun _ => rfl, rfl⟩

/-- Only the friends may differ. -/
theorem sameMemory_friends_iff {friends : HashMap String F2fFriend} :
    SameMemory b { b with friends := friends, wal := w } ↔
      ∀ uid, friends.lookup uid = b.friends.lookup uid :=
  ⟨fun h => h.friends, fun h => ⟨h, fun _ => rfl, fun _ => rfl, rfl⟩⟩

/-- One friend is changed in place. -/
theorem sameMemory_modify_iff (uid : String) (change : F2fFriend → F2fFriend) :
    SameMemory b { b with friends := HashMap.modify b.friends uid change, wal := w } ↔
      ∀ f, b.friends.lookup uid = some f → change f = f := by
  rw [sameMemory_friends_iff]
  exact HashMap.lookup_modify_eq_self_iff

/-- A friend is added without effect if the same record is there already. -/
theorem sameMemory_addFriend_iff (uid : String) (f : F2fFriend) :
    SameMemory b { b with friends := b.friends.insert uid f, wal := w } ↔
      b.friends.lookup uid = some f := by
  rw [sameMemory_friends_iff]
  constructor
  · intro h
    rw [← h uid, HashMap.lookup_insert_ite, if_pos rfl]
  · intro h uid'
    rw [HashMap.lookup_insert_ite]
    split
    next heq => rw [heq, h]
    next => rfl

/-- Nobody is removed who is not a friend. -/
theorem sameMemory_removeFriend_iff (uid : String) :
    SameMemory b { b with friends := b.friends.erase uid, wal := w } ↔ uid ∉ b.friends := by
  rw [sameMemory_friends_iff, ← AList.lookup_eq_none]
  constructor
  · intro h
    rw [← h uid, HashMap.lookup_erase_ite, if_pos rfl]
  · intro h uid'
    rw [HashMap.lookup_erase_ite]
    split
    next heq => rw [heq, h]
    next => rfl

/-- A channel that exists is not created again. -/
theorem sameMemory_createChannel_iff (name : String) :
    SameMemory b { b.createChannelNoLog prim name with wal := w } ↔ name ∈ b.channels := by
  unfold createChannelNoLog
  by_cases h : name ∈ b.channels
  · rw [if_pos h]
    exact iff_of_true sameMemory_wal h
  · rw [if_neg h]
    refine iff_of_false (fun hsame => ?_) h
    have hchannel := hsame.channels name
    rw [HashMap.lookup_insert_ite, if_pos rfl, AList.lookup_eq_none.mpr h] at hchannel
    cases hchannel

/-- A join succeeds if and only if the friend can join. -/
theorem joinOne_ne_none_iff {channel uid : String} :
    b.joinOne channel uid ≠ none ↔ b.CanJoin channel uid := by
  constructor
  · intro h
    obtain ⟨b', hb'⟩ := Option.ne_none_iff_exists'.mp h
    obtain ⟨ch, group, f, hch, hgroup, huid, hf, htrust, hmem, -⟩ := joinOne_eq_some hb'
    exact ⟨ch, group, f, hch, hgroup, huid, hf, htrust, hmem⟩
  · rintro ⟨ch, group, f, hch, hgroup, huid, hf, htrust, hmem⟩
    exact Option.isSome_iff_ne_none.mp (joinOne_isSome hch hgroup huid hf htrust hmem)

/-- Those who join are added to the participants. -/
theorem lookup_joinChannelNoLog (b : Bridge) (channel : String) (uids : List String) :
    ((b.joinChannelNoLog channel uids).1.channels.lookup channel).map ChannelInfo.participants =
      (b.channels.lookup channel).map fun ch =>
        ch.participants ++ (b.joinChannelNoLog channel uids).2 := by
  induction uids generalizing b with
  | nil => simp [joinChannelNoLog]
  | cons uid uids ih =>
    rw [joinChannelNoLog]
    split
    next b' hjoin =>
      obtain ⟨ch, group, f, hch, -, -, -, -, -, rfl⟩ := joinOne_eq_some hjoin
      dsimp only
      rw [ih, HashMap.lookup_insert_ite, if_pos rfl, hch]
      simp
    next => exact ih b

/-- Nothing happens if none of those named can join. -/
theorem joinChannelNoLog_of_none {channel : String} {uids : List String}
    (h : ∀ uid ∈ uids, ¬ b.CanJoin channel uid) : b.joinChannelNoLog channel uids = (b, []) := by
  induction uids with
  | nil => rfl
  | cons uid uids ih =>
    obtain ⟨huid, huids⟩ := List.forall_mem_cons.mp h
    have hnone : b.joinOne channel uid = none := by
      by_contra hne
      exact huid (joinOne_ne_none_iff.mp hne)
    rw [joinChannelNoLog, hnone]
    exact ih huids

/-- A friend who can join does so, or somebody before it. -/
theorem exists_joined {channel : String} {uids : List String} {uid : String} (huid : uid ∈ uids)
    (hjoin : b.CanJoin channel uid) : (b.joinChannelNoLog channel uids).2 ≠ [] := by
  induction uids with
  | nil => cases huid
  | cons first uids ih =>
    rw [joinChannelNoLog]
    split
    next => exact List.cons_ne_nil _ _
    next hnone =>
      rcases List.mem_cons.mp huid with rfl | huid
      · exact absurd hnone (joinOne_ne_none_iff.mpr hjoin)
      · exact ih huid

/-- Joins change the memory if somebody can join. -/
theorem sameMemory_joinChannel_iff (channel : String) (uids : List String) :
    SameMemory b { (b.joinChannelNoLog channel uids).1 with wal := w } ↔
      ∀ uid ∈ uids, ¬ b.CanJoin channel uid := by
  constructor
  -- somebody who joins makes the list of participants longer
  · intro hsame uid huid hjoin
    have hjoined := exists_joined huid hjoin
    obtain ⟨ch, group, f, hch, -⟩ := hjoin
    have hlookup := lookup_joinChannelNoLog b channel uids
    have hchannel : (b.joinChannelNoLog channel uids).1.channels.lookup channel =
      b.channels.lookup channel := hsame.channels channel
    rw [hchannel, hch, Option.map_some, Option.map_some, Option.some.injEq,
      List.self_eq_append_right] at hlookup
    exact hjoined hlookup
  · intro h
    rw [joinChannelNoLog_of_none h]
    exact sameMemory_wal

/-- Only a participant can be taken out of a channel. -/
theorem filter_participants_eq_self_iff {ch : ChannelInfo} {uid : String} :
    { ch with participants := ch.participants.filter (· ≠ uid) } = ch ↔ uid ∉ ch.participants := by
  rw [ChannelInfo.mk.injEq]
  simp only [true_and, and_true, List.filter_eq_self, decide_eq_true_eq]
  exact ⟨fun h hmem => h uid hmem rfl, fun h u hu heq => h (heq ▸ hu)⟩

/-- Only a member can leave a group. -/
theorem leave_eq_self_iff {g : DcGroup} {peerId : Bytes32} :
    g.leave peerId = g ↔ peerId ∉ g.peerIds := by
  rw [DcGroup.leave, DcGroup.mk.injEq]
  simp only [true_and, and_true, List.filter_eq_self, decide_eq_true_eq, DcGroup.mem_peerIds]
  constructor
  · rintro h ⟨p, hp, heq⟩
    exact h p hp heq
  · exact fun h p hp heq => h ⟨p, hp, heq⟩

/-- Both the channel and its group may list the one who leaves. -/
theorem sameMemory_leaveChannel_iff (name uid : String) :
    SameMemory b { b.removeParticipant prim name uid with wal := w } ↔
      (∀ ch, b.channels.lookup name = some ch → uid ∉ ch.participants) ∧
        ∀ g, b.groups.lookup name = some g → peerIdOf prim uid ∉ g.peerIds := by
  have hsame : SameMemory b { b.removeParticipant prim name uid with wal := w } ↔
      (∀ n, (b.removeParticipant prim name uid).channels.lookup n = b.channels.lookup n) ∧
        ∀ n, (b.removeParticipant prim name uid).groups.lookup n = b.groups.lookup n :=
    ⟨fun h => ⟨h.channels, h.groups⟩, fun h => ⟨fun _ => rfl, h.1, h.2, rfl⟩⟩
  rw [hsame, removeParticipant, HashMap.lookup_modify_eq_self_iff,
    HashMap.lookup_modify_eq_self_iff]
  simp only [filter_participants_eq_self_iff, leave_eq_self_iff]

/-- A call leaves the memory as it is if and only if it has no effect, whatever the disk does. -/
theorem sameMemory_applyOn_iff (b : Bridge) (i : Input) :
    SameMemory b (b.applyOn prim serde disk i) ↔ NoEffect prim b i := by
  obtain ⟨w, hw⟩ := @exists_applyOn_eq prim serde disk b i
  rw [hw]
  -- what is left does not mention the disk
  obtain ⟨call, fresh, tick⟩ := i
  have hkey (uid : String) (key : Bytes32) :
      SameMemory b { b.applyOps prim (fun _ => fresh) (b.entries (.setEdgeKey uid key)) with
        wal := w } ↔ ∀ f, b.friends.lookup uid = some f → f.edgeKey = key := by
    rw [entries]
    split
    · simp only [applyOps, applyOpNoLog, edgeKeyFromHex_toHex]
      rw [sameMemory_modify_iff]
      refine forall_congr' fun f => imp_congr_right fun _ => ?_
      rw [F2fFriend.mk.injEq]
      simp only [true_and, eq_comm]
    next hmem =>
      refine iff_of_true sameMemory_wal fun f hf => ?_
      exact absurd (HashMap.mem_iff_exists_lookup.mpr ⟨f, hf⟩) hmem
  cases call with
  | addFriend uid addr trust => exact sameMemory_addFriend_iff uid _
  | removeFriend uid => exact sameMemory_removeFriend_iff uid
  | updateTrust uid trust =>
    refine (sameMemory_modify_iff uid _).trans ?_
    refine forall_congr' fun f => imp_congr_right fun _ => ?_
    rw [F2fFriend.mk.injEq]
    simp only [true_and, and_true, eq_comm]
  | setEdgeKey uid key => exact hkey uid key
  | importEdgeKey uid hex =>
    simp only [entries, NoEffect]
    cases hhex : edgeKeyFromHex hex with
    -- a text that is no key sets none
    | none =>
      refine iff_of_true sameMemory_wal fun key hkey => ?_
      cases hkey
    | some key =>
      have hset := hkey uid key
      rw [entries] at hset
      simpa only [Option.some.injEq, forall_eq'] using hset
  | createChannel name =>
    simp only [entries]
    split
    next hmem => exact iff_of_true sameMemory_wal hmem
    next => exact sameMemory_createChannel_iff name
  | joinChannel channel uids =>
    simp only [entries]
    rw [← joinChannelNoLog_filter _ fun _ h => h]
    exact sameMemory_joinChannel_iff channel uids
  | leaveChannel name =>
    simp only [entries, applyOps, applyOpNoLog, if_true]
    exact sameMemory_leaveChannel_iff name b.myUid
  | setMyUid uid =>
    exact ⟨fun h => h.myUid, fun h => ⟨fun _ => rfl, fun _ => rfl, fun _ => rfl, h⟩⟩

end Effects

/-- A call with an entry that cannot be appended leaves the memory as it was if and only if it has
no effect. -/
theorem unchanged_on_failure_iff (prim : Primitives) (serde : Serde) (disk : ℕ → DiskOutcome)
    (b : Bridge) (i : Input) :
    (AppendFails disk b i.call → SameMemory b (b.applyOn prim serde disk i)) ↔
      (AppendFails disk b i.call → NoEffect prim b i) :=
  imp_congr_right fun _ => sameMemory_applyOn_iff b i

/-- A bridge with an empty log. -/
def aliceLogging : Bridge := (new "alice").attachWal (.openAt ⟨[], none⟩ 100 0)

/-- The log is full, and the new friend is there all the same. -/
theorem changed_on_failure :
    ¬ ∀ (prim : Primitives) (serde : Serde) (disk : ℕ → DiskOutcome) (b : Bridge) (i : Input),
      AppendFails disk b i.call → SameMemory b (b.applyOn prim serde disk i) := by
  intro hclaim
  have hsame := hclaim .const (.ofTable [] []) (fun _ => ⟨.err 0, .ok⟩) aliceLogging
    ⟨.addFriend "bob" "127.0.0.1:9000" 1, .replicate 32 1, fun _ => ⟨0, 0⟩⟩
    ⟨rfl, 0, by decide, 0, rfl⟩
  exact absurd (hsame.friends "bob") (by decide +kernel)

end Bridge

end ChronoShift
