import ChronoShift.DcNet.Group
import ChronoShift.DcNet.Share
import ChronoShift.Storage.Wal

/-!
# The friend-to-friend bridge

The social state of a node (`dcnet/f2f.rs`): friends with their edge keys, channels with their
participants, and the write-ahead log every mutating operation is appended to before the state in
memory changes.

Random edge keys are arguments, and so are the clock readings of the log. An operation that logs
more than one entry reads the clock of entry `i` at `i`.

* `Bridge.apply`: the operations, as calls;
* `Bridge.restore`: the startup path of `AppState::new_with_port`;
* `Bridge.social`: what of the state is compared (uid, friends, channel participants).
-/

namespace ChronoShift

open ToMathlib

/-- A friend. -/
structure F2fFriend where
  uid : String
  peerId : Bytes32
  /-- 0, 1 or 2. -/
  trustLevel : UInt8
  transportAddress : String
  edgeKey : Bytes32
  deriving DecidableEq

/-- A friend with the edge key `fresh`; the trust level is capped. -/
def F2fFriend.new (prim : Primitives) (fresh : Bytes32) (uid addr : String) (trust : UInt8) :
    F2fFriend :=
  ⟨uid, peerIdOf prim uid, min trust 2, addr, fresh⟩

/-- `EdgeKey::to_hex`. -/
def edgeKeyToHex (key : Bytes32) : String := hexEncode key.toList

/-- `EdgeKey::from_hex`. -/
def edgeKeyFromHex (hex : String) : Option Bytes32 := (hexDecode hex).bind toBytes32

/-- An exported edge key is read back. -/
@[simp]
theorem edgeKeyFromHex_toHex (key : Bytes32) : edgeKeyFromHex (edgeKeyToHex key) = some key :=
  hexTo32_hexEncode key

/-- A channel. -/
structure ChannelInfo where
  name : String
  topic : String
  participants : List String
  roundId : ℕ
  running : Bool

/-- The social state of a node. -/
structure Bridge where
  friends : HashMap String F2fFriend
  channels : HashMap String ChannelInfo
  groups : HashMap String DcGroup
  myUid : String
  currentChannel : Option String
  minTrust : UInt8
  wal : Option WalStore

/-- The clock readings of one log entry: the timestamp of its line, and the time at which a
checkpoint is considered. -/
structure Tick where
  timestamp : ℕ
  now : ℕ

namespace Bridge

/-- A bridge without friends and channels. -/
def new (myUid : String) : Bridge := ⟨∅, ∅, ∅, myUid, none, 1, none⟩

/-- Attach a log. -/
def attachWal (b : Bridge) (wal : WalStore) : Bridge := { b with wal := some wal }

/-! ## Effects -/

/-- Create a channel with ourselves as its participant. -/
def createChannelNoLog (prim : Primitives) (b : Bridge) (name : String) : Bridge :=
  if name ∈ b.channels then b
  else
    { b with
      groups := b.groups.insert name
        ((DcGroup.new (prim.sha256 (asBytes name)) 2 1).join (peerIdOf prim b.myUid))
      channels := b.channels.insert name ⟨name, "", [b.myUid], 0, false⟩ }

/-- Add one uid to a channel: a friend of sufficient trust that is not in it yet. -/
def joinOne (b : Bridge) (channel uid : String) : Option Bridge := do
  let ch ← b.channels.lookup channel
  let group ← b.groups.lookup channel
  -- our own uid is skipped, even after we have left the channel
  guard (uid ≠ b.myUid)
  let f ← b.friends.lookup uid
  guard (b.minTrust ≤ f.trustLevel ∧ uid ∉ ch.participants)
  return { b with
    groups := b.groups.insert channel (group.join f.peerId)
    channels := b.channels.insert channel { ch with participants := ch.participants ++ [uid] } }

/-- Add uids to a channel, and return those that joined. -/
def joinChannelNoLog (b : Bridge) (channel : String) : List String → Bridge × List String
  | [] => (b, [])
  | uid :: uids =>
    match b.joinOne channel uid with
    | some b' =>
      let (b'', joined) := joinChannelNoLog b' channel uids
      (b'', uid :: joined)
    | none => joinChannelNoLog b channel uids

/-- Remove `uid` from a channel and its group. -/
def removeParticipant (prim : Primitives) (b : Bridge) (channel uid : String) : Bridge :=
  { b with
    channels := HashMap.modify b.channels channel fun ch =>
      { ch with participants := ch.participants.filter (· ≠ uid) }
    groups := HashMap.modify b.groups channel fun g => g.leave (peerIdOf prim uid) }

/-- Leave a channel ourselves. -/
def leaveChannelNoLog (prim : Primitives) (b : Bridge) (name : String) : Bridge :=
  b.removeParticipant prim name b.myUid

/-- Apply a replayed operation without logging it. `fresh` is the edge key a new friend would
get. -/
def applyOpNoLog (prim : Primitives) (fresh : Bytes32) (b : Bridge) : WalOperation → Bridge
  | .addFriend uid addr trust =>
    { b with friends := b.friends.insert uid (F2fFriend.new prim fresh uid addr trust) }
  | .removeFriend uid => { b with friends := b.friends.erase uid }
  | .updateTrust uid trust =>
    { b with friends := HashMap.modify b.friends uid fun f => { f with trustLevel := min trust 2 } }
  | .updateEdgeKey uid keyHex =>
    match edgeKeyFromHex keyHex with
    | some key =>
      { b with friends := HashMap.modify b.friends uid fun f => { f with edgeKey := key } }
    | none => b
  | .createChannel name => b.createChannelNoLog prim name
  | .joinChannel channel uid => (b.joinChannelNoLog channel [uid]).1
  | .leaveChannel channel uid =>
    if uid = b.myUid then b.leaveChannelNoLog prim channel
    -- a channel and its group exist together, so both are changed or none
    else if channel ∈ b.channels then b.removeParticipant prim channel uid
    else b
  | .setUid uid => { b with myUid := uid }
  -- entries of other components, which the bridge ignores
  | _ => b

/-- Apply replayed operations in order; the edge key of the `i`-th one would be `fresh i`. -/
def applyOps (prim : Primitives) (fresh : ℕ → Bytes32) (b : Bridge) : List WalOperation → Bridge
  | [] => b
  | op :: ops => applyOps prim (fun i => fresh (i + 1)) (b.applyOpNoLog prim (fresh 0) op) ops

/-! ## Snapshots -/

/-- The snapshot of the social state. The hash tables are listed in the order they are stored. -/
def snapshot (b : Bridge) : SocialSnapshot where
  uid := b.myUid
  friends := (HashMap.pairs b.friends).map fun p =>
    ⟨p.1, p.2.transportAddress, p.2.trustLevel, some (edgeKeyToHex p.2.edgeKey)⟩
  channels := (HashMap.values b.channels).map fun c => ⟨c.name, c.topic, c.participants⟩

/-- Insert the friends of a snapshot. A missing or unreadable edge key is replaced. -/
def insertFriends (prim : Primitives) (fresh : ℕ → Bytes32) (friends : HashMap String F2fFriend) :
    List FriendRecord → HashMap String F2fFriend
  | [] => friends
  | f :: fs =>
    let key := (f.edgeKeyHex.bind edgeKeyFromHex).getD (fresh 0)
    insertFriends prim (fun i => fresh (i + 1))
      (friends.insert f.uid (F2fFriend.new prim key f.uid f.addr f.trust)) fs

/-- Rebuild one channel of a snapshot. -/
def restoreChannel (prim : Primitives) (b : Bridge) (c : ChannelRecord) : Bridge :=
  -- the creator is in the new group, and stays there if the record does not list it
  let b := b.createChannelNoLog prim c.name
  { b with
    channels := HashMap.modify b.channels c.name fun ch =>
      { ch with topic := c.topic, participants := c.participants }
    groups := HashMap.modify b.groups c.name fun g =>
      c.participants.foldl (fun g p => g.join (peerIdOf prim p)) g }

/-- Rebuild the bridge from a snapshot. -/
def applySnapshot (prim : Primitives) (fresh : ℕ → Bytes32) (b : Bridge) (snap : SocialSnapshot) :
    Bridge :=
  let b := { b with
    myUid := snap.uid
    friends := insertFriends prim fresh ∅ snap.friends
    channels := ∅
    groups := ∅ }
  snap.channels.foldl (fun b c => b.restoreChannel prim c) b

/-- The startup path: a new bridge, the snapshot if there is one, the replayed log, and the log
attached. `freshSnap` and `freshLog` are the random edge keys drawn on the way. -/
def restore (prim : Primitives) (serde : Serde) (freshSnap freshLog : ℕ → Bytes32) (uid : String)
    (store : WalStore) : Bridge :=
  let b := new uid
  let b := match store.loadState serde with
    | some snap => b.applySnapshot prim freshSnap snap
    | none => b
  (b.applyOps prim freshLog (store.replay serde)).attachWal store

/-! ## Logged operations -/

/-- Append an operation to the log, if there is one, and take a checkpoint when it is due. -/
def logWal (serde : Serde) (tick : Tick) (b : Bridge) (op : WalOperation) : Bridge :=
  match b.wal with
  | none => b
  | some wal =>
    let wal := wal.append serde tick.timestamp op
    -- the snapshot is taken before the caller has changed anything in memory
    if wal.shouldCheckpoint tick.now then
      { b with wal := some (wal.checkpoint serde b.snapshot tick.now) }
    else { b with wal := some wal }

/-- Append operations one after the other; the clock of the `i`-th one is `tick i`. -/
def logAll (serde : Serde) (tick : ℕ → Tick) (b : Bridge) : List WalOperation → Bridge
  | [] => b
  | op :: ops => logAll serde (fun i => tick (i + 1)) (b.logWal serde (tick 0) op) ops

section Operations

variable (prim : Primitives) (serde : Serde) (tick : ℕ → Tick) (b : Bridge)

/-- Add a friend with the random edge key `fresh`. -/
def addFriend (fresh : Bytes32) (uid addr : String) (trust : UInt8) : Bridge :=
  let b := b.logWal serde (tick 0) (.addFriend uid addr trust)
  { b with friends := b.friends.insert uid (F2fFriend.new prim fresh uid addr trust) }

/-- Remove a friend. -/
def removeFriend (uid : String) : Bridge :=
  let b := b.logWal serde (tick 0) (.removeFriend uid)
  { b with friends := b.friends.erase uid }

/-- Change the trust level of a friend. -/
def updateTrust (uid : String) (trust : UInt8) : Bridge :=
  let b := b.logWal serde (tick 0) (.updateTrust uid trust)
  { b with friends := HashMap.modify b.friends uid fun f => { f with trustLevel := min trust 2 } }

/-- Replace the edge key of a friend. -/
def setEdgeKey (uid : String) (key : Bytes32) : Bridge × Bool :=
  -- the key of a stranger is neither logged nor stored
  if uid ∉ b.friends then (b, false)
  else
    let b := b.logWal serde (tick 0) (.updateEdgeKey uid (edgeKeyToHex key))
    ({ b with friends := HashMap.modify b.friends uid fun f => { f with edgeKey := key } }, true)

/-- Import an edge key from its hex form. -/
def importEdgeKey (uid hex : String) : Bridge × Bool :=
  match edgeKeyFromHex hex with
  | some key => b.setEdgeKey serde tick uid key
  | none => (b, false)

/-- Create a channel. -/
def createChannel (name : String) : Bridge × Bool :=
  if name ∈ b.channels then (b, false)
  else ((b.logWal serde (tick 0) (.createChannel name)).createChannelNoLog prim name, true)

/-- Joining `uid` is logged: the channel exists without it, and it is a friend. -/
def logsJoin (channel uid : String) : Bool :=
  (b.channels.lookup channel).map (fun ch => ch.participants.contains uid) = some false &&
    uid ∈ b.friends

/-- Join uids to a channel. The entries are logged first; logging changes neither channels nor
friends, so every uid is checked against the same state. -/
def joinChannel (channel : String) (uids : List String) : Bridge × List String :=
  let ops := (uids.filter (b.logsJoin channel)).map (WalOperation.joinChannel channel)
  (b.logAll serde tick ops).joinChannelNoLog channel uids

/-- Leave a channel. -/
def leaveChannel (name : String) : Bridge :=
  (b.logWal serde (tick 0) (.leaveChannel name b.myUid)).leaveChannelNoLog prim name

/-- Change our uid. -/
def setMyUid (uid : String) : Bridge :=
  { b.logWal serde (tick 0) (.setUid uid) with myUid := uid }

/-- The edge keys of all friends. -/
def edgeKeyMap : HashMap String Bytes32 :=
  HashMap.ofPairs ((HashMap.pairs b.friends).map fun p => (p.1, p.2.edgeKey))

/-- Checkpoint the current state (on shutdown). -/
def checkpointWal (now : ℕ) : Bridge :=
  { b with wal := b.wal.map fun w => w.checkpoint serde b.snapshot now }

end Operations

/-- The operations with a log entry. -/
inductive Call where
  | addFriend (uid addr : String) (trust : UInt8)
  | removeFriend (uid : String)
  | updateTrust (uid : String) (trust : UInt8)
  | setEdgeKey (uid : String) (key : Bytes32)
  | importEdgeKey (uid hex : String)
  | createChannel (name : String)
  | joinChannel (channel : String) (uids : List String)
  | leaveChannel (name : String)
  | setMyUid (uid : String)

/-- A call with the random key and the clock readings it meets. -/
structure Input where
  call : Call
  fresh : Bytes32
  tick : ℕ → Tick

/-- Carry out a call. -/
def apply (prim : Primitives) (serde : Serde) (b : Bridge) (i : Input) : Bridge :=
  match i.call with
  | .addFriend uid addr trust => b.addFriend prim serde i.tick i.fresh uid addr trust
  | .removeFriend uid => b.removeFriend serde i.tick uid
  | .updateTrust uid trust => b.updateTrust serde i.tick uid trust
  | .setEdgeKey uid key => (b.setEdgeKey serde i.tick uid key).1
  | .importEdgeKey uid hex => (b.importEdgeKey serde i.tick uid hex).1
  | .createChannel name => (b.createChannel prim serde i.tick name).1
  | .joinChannel channel uids => (b.joinChannel serde i.tick channel uids).1
  | .leaveChannel name => b.leaveChannel prim serde i.tick name
  | .setMyUid uid => b.setMyUid serde i.tick uid

/-- Carry out calls one after the other. -/
def run (prim : Primitives) (serde : Serde) (b : Bridge) (inputs : List Input) : Bridge :=
  inputs.foldl (apply prim serde) b

end Bridge

end ChronoShift
