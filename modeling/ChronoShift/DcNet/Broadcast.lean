import ChronoShift.DcNet.Reputation
import ChronoShift.DcNet.Social

/-!
# Local broadcasts

The bridge with the reputations of its peers, and the rest of its operations (`dcnet/f2f.rs`):
topics, the current channel, the round driver flag, trust levels that follow the reputations, and
the broadcast of a message in a round whose participants are all simulated locally.

* `F2fDcNetBridge.syncReputationToTrust_spec`: the trust levels follow the reputations, and nothing
  else of a friend changes;
* `F2fDcNetBridge.broadcastMessage_cases`: what a broadcast changes.
-/

namespace ChronoShift

open ToMathlib

namespace Bridge

/-- Make a channel the current one, if it exists. -/
def switchChannel (b : Bridge) (name : String) : Bridge × Bool :=
  if name ∈ b.channels then ({ b with currentChannel := some name }, true) else (b, false)

/-- Set the topic of a channel. -/
def setTopic (b : Bridge) (channel topic : String) : Bridge :=
  { b with channels := HashMap.modify b.channels channel fun ch => { ch with topic := topic } }

/-- Start the round driver of a channel. Its thread only sleeps until the flag is cleared. -/
def startRoundDriver (b : Bridge) (channel : String) (_intervalMs : ℕ) : Bridge :=
  { b with channels := HashMap.modify b.channels channel fun ch => { ch with running := true } }

/-- Stop the round driver of a channel. -/
def stopRoundDriver (b : Bridge) (channel : String) : Bridge :=
  { b with channels := HashMap.modify b.channels channel fun ch => { ch with running := false } }

/-- The participants of a channel. -/
def listParticipants (b : Bridge) (name : String) : List String :=
  ((b.channels.lookup name).map ChannelInfo.participants).getD []

end Bridge

/-! ## Shares -/

/-- The expansion loop: SHA-256 blocks in counter mode until none of the `missing` bytes is missing.
`fuel` bounds the number of passes. -/
def expandShareBlocks (prim : Primitives) (seed : Bytes) : ℕ → ℕ → ℕ → Bytes
  | 0, _, _ => []
  | fuel + 1, counter, missing =>
    if missing = 0 then []
    else
      (prim.sha256 (seed ++ beBytes 8 counter)).toList ++
        expandShareBlocks prim seed fuel (counter + 1) (missing - 32)

/-- Expand a shared secret to `len` bytes. -/
def expandShare (prim : Primitives) (seed : Bytes) (len : ℕ) : Bytes :=
  (expandShareBlocks prim seed len 0 len).take len

/-- The pairs of `n` participants. -/
def participantPairs (n : ℕ) : List (ℕ × ℕ) :=
  (List.range n).flatMap fun i => (List.range' (i + 1) (n - (i + 1))).map fun j => (i, j)

/-- The shares of `n` participants: each pair adds its expanded Diffie-Hellman secret to both of its
shares. The ephemeral secret of participant `i` is `secrets i`. -/
def pairwiseShares (prim : Primitives) (secrets : ℕ → Bytes32) (n payloadLen : ℕ) : List Bytes :=
  (participantPairs n).foldl (fun shares (p : ℕ × ℕ) =>
      let shared := prim.diffieHellman (secrets p.1) (prim.x25519Public (secrets p.2))
      let expanded := expandShare prim shared.toList payloadLen
      (shares.modify p.1 (xorBytes · expanded)).modify p.2 (xorBytes · expanded))
    (List.replicate n (List.replicate payloadLen 0))

/-- Read the message behind its length field. -/
def extractText (globalXor : Bytes) : String :=
  if 4 ≤ globalXor.length then
    let declaredLen := ofBeBytes (globalXor.take 4)
    let actualLen := min declaredLen (globalXor.length - 4)
    fromUtf8Lossy ((globalXor.drop 4).take actualLen)
  else fromUtf8Lossy globalXor

/-! ## The bridge -/

/-- The social state of a node, with the reputations of its peers. -/
structure F2fDcNetBridge extends Bridge where
  reputation : ReputationManager

/-- What an operation meets: random edge keys and secrets, clock readings, and the order in which
the friends are visited. -/
structure OpEnv where
  fresh : ℕ → Bytes32
  secrets : ℕ → Bytes32
  tick : ℕ → Tick
  now : ℕ
  friendOrder : IterOrder (String × F2fFriend)

/-- Fixed keys and a clock that stands still, for evaluating the model on fixed inputs. -/
def OpEnv.still : OpEnv :=
  ⟨fun _ => .replicate 32 1, fun _ => .replicate 32 2, fun _ => ⟨0, 0⟩, 0, .stored⟩

namespace F2fDcNetBridge

/-- A bridge without friends and channels. -/
def new (myUid : String) : F2fDcNetBridge := ⟨Bridge.new myUid, .new⟩

/-- Give the friends the trust levels of their reputations, and return the changes. The list holds
the friends as they were at the start. -/
def syncFriends (now : ℕ) (b : F2fDcNetBridge) :
    List F2fFriend → F2fDcNetBridge × List (String × UInt8)
  | [] => (b, [])
  | f :: fs =>
    let (reputation, rep) := b.reputation.getOrCreate now f.peerId.toList
    let b := { b with reputation := reputation }
    let level := rep.syncLevel
    if f.trustLevel ≠ level ∧ f.uid ∈ b.friends then
      let b := { b with
        friends := HashMap.modify b.friends f.uid fun f => { f with trustLevel := level } }
      let (b, changes) := syncFriends now b fs
      (b, (f.uid, level) :: changes)
    else syncFriends now b fs

/-- Give every friend the trust level of its reputation. -/
def syncReputationToTrust (env : OpEnv) (b : F2fDcNetBridge) :
    F2fDcNetBridge × List (String × UInt8) :=
  b.syncFriends env.now ((env.friendOrder.visit (HashMap.pairs b.friends)).map Prod.snd)

/-- Broadcast a message in a channel. All participants of the round are simulated. -/
def broadcastMessage (prim : Primitives) (env : OpEnv) (b : F2fDcNetBridge)
    (channel text : String) : F2fDcNetBridge × Option String :=
  match b.groups.lookup channel with
  | none => (b, none)
  | some group =>
    let participants := group.peerIds
    if participants.length < 2 then (b, some text)
    else
      let nextId := ((b.channels.lookup channel).map fun ch => ch.roundId + 1).getD 1
      match group.startRound nextId env.now with
      | (group, none) => ({ b with groups := b.groups.insert channel group }, none)
      | (group, some _) =>
        let payloadLen := 4 + (asBytes text).length
        let shares := pairwiseShares prim env.secrets participants.length payloadLen
        match participants.idxOf? (peerIdOf prim b.myUid) with
        -- the round stays open in the group
        | none => ({ b with groups := b.groups.insert channel group }, none)
        | some senderIdx =>
          let payload := beBytes 4 (asBytes text).length ++ asBytes text
          let shares := shares.modify senderIdx (xorBytes · payload)
          let globalXor := shares.foldl xorBytes (List.replicate payloadLen 0)
          let extracted := extractText globalXor
          -- every participant responds in the simulation
          let (group, _, malicious) := group.finishRoundWith participants
          let responded := participants.map Vector.toList
          let (reputation, banned) := b.reputation.processRound env.now responded 100 responded
          let malicious := malicious ++ banned.filterMap toBytes32
          let b := { b with groups := b.groups.insert channel group, reputation := reputation }
          let b := (b.syncReputationToTrust env).1
          let b := { b with
            channels := HashMap.modify b.channels channel fun ch =>
              { ch with
                roundId := nextId
                participants := ch.participants.filter (peerIdOf prim · ∉ malicious) } }
          (b, some ("[DC-Net round #" ++ toString nextId ++ " (" ++ toString participants.length ++
            " parties)] " ++ extracted))

/-- The operations of a bridge. -/
inductive Operation where
  /-- An operation with a log entry. -/
  | call (call : Bridge.Call)
  | attachWal (wal : WalStore)
  | checkpointWal
  | applyOpNoLog (op : WalOperation)
  | applySnapshot (snap : SocialSnapshot)
  | switchChannel (name : String)
  | setTopic (channel topic : String)
  | syncReputationToTrust
  | broadcastMessage (channel text : String)
  | startRoundDriver (channel : String) (intervalMs : ℕ)
  | stopRoundDriver (channel : String)

/-- Carry out an operation. -/
def apply (prim : Primitives) (serde : Serde) (env : OpEnv) (b : F2fDcNetBridge) :
    Operation → F2fDcNetBridge
  | .call c => { b with toBridge := b.toBridge.apply prim serde ⟨c, env.fresh 0, env.tick⟩ }
  | .attachWal wal => { b with toBridge := b.toBridge.attachWal wal }
  | .checkpointWal => { b with toBridge := b.toBridge.checkpointWal serde env.now }
  | .applyOpNoLog op => { b with toBridge := b.toBridge.applyOpNoLog prim (env.fresh 0) op }
  | .applySnapshot snap => { b with toBridge := b.toBridge.applySnapshot prim env.fresh snap }
  | .switchChannel name => { b with toBridge := (b.toBridge.switchChannel name).1 }
  | .setTopic channel topic => { b with toBridge := b.toBridge.setTopic channel topic }
  | .syncReputationToTrust => (b.syncReputationToTrust env).1
  | .broadcastMessage channel text => (b.broadcastMessage prim env channel text).1
  | .startRoundDriver channel intervalMs =>
    { b with toBridge := b.toBridge.startRoundDriver channel intervalMs }
  | .stopRoundDriver channel => { b with toBridge := b.toBridge.stopRoundDriver channel }

/-! ## Trust levels -/

/-- Every friend is stored under its uid, with the id of the uid. -/
def KnowsFriends (prim : Primitives) (b : Bridge) : Prop :=
  ∀ uid f, b.friends.lookup uid = some f → f.uid = uid ∧ f.peerId = peerIdOf prim uid

/-- The friend, with the trust level of its reputation. -/
def levelled (m : ReputationManager) (now : ℕ) (f : F2fFriend) : F2fFriend :=
  { f with trustLevel := (m.get now f.peerId.toList).syncLevel }

variable {prim : Primitives} {serde : Serde} {env : OpEnv} {b : F2fDcNetBridge}

/-- The listed friends get their levels, and nothing else changes. -/
theorem syncFriends_spec {now : ℕ} {fs : List F2fFriend} (hnodup : (fs.map F2fFriend.uid).Nodup)
    (hfs : ∀ f ∈ fs, b.friends.lookup f.uid = some f) :
    ∃ friends reputation,
      (b.syncFriends now fs).1 = { b with friends := friends, reputation := reputation } ∧
      ∀ uid, friends.lookup uid = (b.friends.lookup uid).map fun f =>
        if uid ∈ fs.map F2fFriend.uid then levelled b.reputation now f else f := by
  induction fs generalizing b with
  | nil => exact ⟨b.friends, b.reputation, rfl, fun uid => by simp⟩
  | cons f fs ih =>
    obtain ⟨hnotin, hnodup⟩ := List.nodup_cons.mp hnodup
    obtain ⟨hf, hfs⟩ := List.forall_mem_cons.mp hfs
    have hlevel (g : F2fFriend) :
        levelled (b.reputation.getOrCreate now f.peerId.toList).1 now g =
          levelled b.reputation now g := by
      rw [levelled, levelled, ReputationManager.get_getOrCreate]
    -- the loop goes on with the friend at its new level, be it changed or not
    have hrest : ∀ friends₁ : HashMap String F2fFriend,
        (∀ uid, friends₁.lookup uid = if uid = f.uid
          then some (levelled b.reputation now f) else b.friends.lookup uid) →
        ∃ friends reputation,
          (syncFriends now { b with
            friends := friends₁
            reputation := (b.reputation.getOrCreate now f.peerId.toList).1 } fs).1 =
              { b with friends := friends, reputation := reputation } ∧
          ∀ uid, friends.lookup uid = (b.friends.lookup uid).map fun g =>
            if uid ∈ (f :: fs).map F2fFriend.uid then levelled b.reputation now g else g := by
      intro friends₁ hfriends
      have hfs₁ : ∀ g ∈ fs, friends₁.lookup g.uid = some g := fun g hg => by
        have hne : g.uid ≠ f.uid := fun heq => hnotin (heq ▸ List.mem_map_of_mem hg)
        rw [hfriends, if_neg hne]
        exact hfs g hg
      obtain ⟨friends, reputation, heq, hlookup⟩ := @ih { b with
        friends := friends₁
        reputation := (b.reputation.getOrCreate now f.peerId.toList).1 } hnodup hfs₁
      refine ⟨friends, reputation, heq, fun uid => ?_⟩
      rw [hlookup, List.map_cons]
      show (friends₁.lookup uid).map _ = _
      rw [hfriends]
      -- the first friend is not visited again
      by_cases huid : uid = f.uid
      · rw [if_pos huid, huid, hf, Option.map_some, Option.map_some, if_neg hnotin,
          if_pos List.mem_cons_self]
      · rw [if_neg huid]
        simp only [List.mem_cons, huid, false_or, hlevel]
    have hget : b.reputation.getOrCreate now f.peerId.toList =
        ((b.reputation.getOrCreate now f.peerId.toList).1, b.reputation.get now f.peerId.toList) :=
      Prod.ext rfl (ReputationManager.getOrCreate_snd _)
    rw [syncFriends, hget]
    dsimp only
    have hmem : f.uid ∈ b.friends := HashMap.mem_iff_exists_lookup.mpr ⟨f, hf⟩
    -- a friend at its level is left alone
    by_cases hsame : f.trustLevel = (b.reputation.get now f.peerId.toList).syncLevel
    · rw [if_neg fun h => h.1 hsame]
      refine hrest b.friends fun uid => ?_
      split
      next huid =>
        rw [huid, hf, levelled, ← hsame]
      next => rfl
    · rw [if_pos ⟨hsame, hmem⟩]
      refine hrest (HashMap.modify b.friends f.uid _) fun uid => ?_
      rw [HashMap.lookup_modify]
      split
      next huid => rw [huid, hf]; rfl
      next => rfl

/-- The trust levels follow the reputations. -/
theorem syncReputationToTrust_spec (hb : ∀ uid f, b.friends.lookup uid = some f → f.uid = uid) :
    ∃ friends reputation,
      (b.syncReputationToTrust env).1 =
        { b with friends := friends, reputation := reputation } ∧
      ∀ uid, friends.lookup uid =
        (b.friends.lookup uid).map (levelled b.reputation env.now) := by
  have hperm := env.friendOrder.perm (HashMap.pairs b.friends)
  -- every friend is visited once, in whatever order
  have huids : ((env.friendOrder.visit (HashMap.pairs b.friends)).map Prod.snd).map F2fFriend.uid =
      (env.friendOrder.visit (HashMap.pairs b.friends)).map Prod.fst := by
    rw [List.map_map]
    refine List.map_congr_left fun p hp => ?_
    exact hb p.1 p.2 (HashMap.mem_pairs_iff.mp (hperm.mem_iff.mp hp))
  have hnodup : ((env.friendOrder.visit (HashMap.pairs b.friends)).map Prod.fst).Nodup :=
    ((hperm.map Prod.fst).nodup_iff).mpr (HashMap.nodup_keys b.friends)
  obtain ⟨friends, reputation, heq, hlookup⟩ := @syncFriends_spec b env.now _
    (huids.symm ▸ hnodup) fun f hf => by
      obtain ⟨p, hp, rfl⟩ := List.mem_map.mp hf
      have hlookup := HashMap.mem_pairs_iff.mp (hperm.mem_iff.mp hp)
      rw [hb p.1 p.2 hlookup]
      exact hlookup
  refine ⟨friends, reputation, heq, fun uid => ?_⟩
  rw [hlookup, huids]
  cases hf : b.friends.lookup uid with
  | none => rfl
  | some f =>
    have hmem : uid ∈ (env.friendOrder.visit (HashMap.pairs b.friends)).map Prod.fst :=
      List.mem_map.mpr ⟨(uid, f), hperm.mem_iff.mpr (HashMap.mem_pairs_iff.mpr hf), rfl⟩
    rw [Option.map_some, if_pos hmem, Option.map_some]

/-! ## Broadcasts -/

/-- A broadcast holds a round: the group has two members, enough of them are not malicious, and we
are one of its members. -/
def HoldsRound (prim : Primitives) (b : F2fDcNetBridge) (channel : String) : Prop :=
  ∃ group, b.groups.lookup channel = some group ∧ 2 ≤ group.peerIds.length ∧
    group.minParticipants ≤ (group.participants.filter (!·.isMalicious)).length ∧
    peerIdOf prim b.myUid ∈ group.peerIds

/-- The friend after a round of the group: who takes part in it is rewarded first. -/
def rewarded (m : ReputationManager) (now : ℕ) (group : DcGroup) (f : F2fFriend) : F2fFriend :=
  let r := m.get now f.peerId.toList
  { f with trustLevel := (if f.peerId ∈ group.peerIds then r.reward else r).syncLevel }

/-- What a broadcast does to the bridge. -/
inductive Broadcast (prim : Primitives) (env : OpEnv) (b : F2fDcNetBridge) (channel : String) :
    F2fDcNetBridge → Prop
  | refused : ¬ HoldsRound prim b channel → Broadcast prim env b channel b
  /-- The group has dropped its malicious members, but there is no message. -/
  | opened {group group' : DcGroup} {nextId : ℕ} : ¬ HoldsRound prim b channel →
      b.groups.lookup channel = some group → (group.startRound nextId env.now).1 = group' →
      Broadcast prim env b channel { b with groups := b.groups.insert channel group' }
  /-- The round is held. Nobody is evicted. -/
  | held {group group' : DcGroup} {friends : HashMap String F2fFriend}
      {reputation : ReputationManager} (nextId : ℕ) : HoldsRound prim b channel →
      b.groups.lookup channel = some group →
      group'.peerIds = (group.startRound nextId env.now).1.peerIds → group'.Clean →
      (∀ uid, friends.lookup uid =
        (b.friends.lookup uid).map (rewarded b.reputation env.now group)) →
      Broadcast prim env b channel { b with
        friends := friends
        reputation := reputation
        groups := b.groups.insert channel group'
        channels := HashMap.modify b.channels channel fun ch => { ch with roundId := nextId } }

/-- A key is told by its bytes. -/
theorem toList_injective : Function.Injective (Vector.toList : Bytes32 → Bytes) :=
  fun _ _ h => Vector.toList_inj.mp h

/-- The round of a group that has started it: all are rewarded, and nobody is evicted. -/
theorem startRound_eq_some {group g : DcGroup} {nextId now : ℕ} {round : DcRound}
    (h : group.startRound nextId now = (g, some round)) :
    group.minParticipants ≤ (group.participants.filter (!·.isMalicious)).length ∧
      g.currentRound = some round ∧ round.participants = g.participants ∧
      ∀ id ∈ g.peerIds, id ∈ group.peerIds := by
  unfold DcGroup.startRound at h
  dsimp only at h
  split at h
  · cases h
  next hmin =>
    cases h
    refine ⟨not_lt.mp hmin, rfl, rfl, fun id hid => ?_⟩
    exact (List.filter_sublist.map _).subset hid

/-- A round is refused if too few members are left. -/
theorem startRound_eq_none {group g : DcGroup} {nextId now : ℕ}
    (h : group.startRound nextId now = (g, none)) :
    (group.participants.filter (!·.isMalicious)).length < group.minParticipants := by
  unfold DcGroup.startRound at h
  dsimp only at h
  split at h
  next hmin => exact hmin
  · cases h

/-- What a round needs of the group. -/
theorem holdsRound_iff {channel : String} {group : DcGroup}
    (hgroup : b.groups.lookup channel = some group) :
    HoldsRound prim b channel ↔ 2 ≤ group.peerIds.length ∧
      group.minParticipants ≤ (group.participants.filter (!·.isMalicious)).length ∧
      peerIdOf prim b.myUid ∈ group.peerIds := by
  refine ⟨?_, fun h => ⟨group, hgroup, h⟩⟩
  rintro ⟨group', hgroup', h⟩
  obtain rfl := Option.some.inj (hgroup.symm.trans hgroup')
  exact h

/-- After a round in which all members respond, nobody is banned, and the trust levels follow the
rewards. -/
theorem syncReputationToTrust_round (hb : KnowsFriends prim b.toBridge) {group : DcGroup}
    (hnodup : group.peerIds.Nodup) (groups : HashMap String DcGroup) :
    let responded := group.peerIds.map Vector.toList
    let processed := b.reputation.processRound env.now responded 100 responded
    processed.2 = [] ∧ ∃ friends reputation,
      (syncReputationToTrust env { b with groups := groups, reputation := processed.1 }).1 =
        { b with friends := friends, groups := groups, reputation := reputation } ∧
      ∀ uid, friends.lookup uid =
        (b.friends.lookup uid).map (rewarded b.reputation env.now group) := by
  intro responded processed
  obtain ⟨hbanned, hget⟩ := @ReputationManager.processRound_of_responded b.reputation env.now
    responded 100 responded (fun pid hpid => hpid) (hnodup.map toList_injective)
  obtain ⟨friends, reputation, heq, hlookup⟩ := @syncReputationToTrust_spec env { b with
    groups := groups, reputation := processed.1 } fun uid f hf => (hb uid f hf).1
  refine ⟨hbanned, friends, reputation, heq, fun uid => ?_⟩
  rw [hlookup]
  refine congrArg (Option.map · _) (funext fun f => ?_)
  simp only [levelled, rewarded, processed, hget, responded,
    List.mem_map_of_injective toList_injective]

/-- What a broadcast can do to a bridge. -/
theorem broadcastMessage_cases (hb : KnowsFriends prim b.toBridge) {channel : String}
    (hnodup : ∀ group, b.groups.lookup channel = some group → group.peerIds.Nodup)
    (text : String) :
    Broadcast prim env b channel (b.broadcastMessage prim env channel text).1 := by
  unfold broadcastMessage
  split
  next hgroup =>
    refine .refused ?_
    rintro ⟨group, hsome, -⟩
    cases hgroup.symm.trans hsome
  next group hgroup =>
    have hholds := @holdsRound_iff prim b channel group hgroup
    dsimp only
    split
    next hsmall => exact .refused fun h => absurd (hholds.mp h).1 (by omega)
    next hsize =>
      split
      next g hstart =>
        have hfew := startRound_eq_none hstart
        exact .opened (fun h => absurd (hholds.mp h).2.1 (by omega)) hgroup (by rw [hstart])
      next g round hstart =>
        obtain ⟨hmin, hround, hmembers, hsub⟩ := startRound_eq_some hstart
        -- the round is open; it is held if we are a member
        split
        next hidx =>
          have hnot : peerIdOf prim b.myUid ∉ group.peerIds := by simpa using hidx
          exact .opened (fun h => hnot (hholds.mp h).2.2) hgroup (by rw [hstart])
        next senderIdx hidx =>
          have hmem : peerIdOf prim b.myUid ∈ group.peerIds := by
            by_contra hnot
            rw [List.idxOf?_eq_none_iff.mpr hnot] at hidx
            cases hidx
          have hclean : g.Clean := by
            have := group.clean_startRound
              (((b.channels.lookup channel).map fun ch => ch.roundId + 1).getD 1) env.now
            rwa [hstart] at this
          obtain ⟨g', hfinish, hids, hclean'⟩ :=
            DcGroup.finishRoundWith_spec hclean hround hmembers hsub
          rw [hfinish]
          dsimp only
          obtain ⟨hbanned, friends, reputation, heq, hlookup⟩ :=
            @syncReputationToTrust_round prim env b hb group (hnodup group hgroup)
              (b.groups.insert channel g')
          rw [heq, hbanned]
          -- with nobody evicted, the participants of the channel stay
          have hevicted (ps : List String) :
              ps.filter (peerIdOf prim · ∉ [] ++ ([] : List Bytes).filterMap toBytes32) = ps := by
            simp
          simp only [hevicted]
          exact .held _ (hholds.mpr ⟨by omega, hmin, hmem⟩) hgroup (by rw [hstart, hids]) hclean'
            hlookup

end F2fDcNetBridge

end ChronoShift
