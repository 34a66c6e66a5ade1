import ChronoShift.DcNet.BridgeRuns

/-!
# Membership

Who takes part in a channel is stored twice, as the participants of the channel and as the members
of its group. The two agree as long as no two participants have the same id, and as long as we take
part ourselves in every channel that is loaded from a snapshot: the group of a loaded channel is
made with us as its creator.

* `F2fDcNetBridge.membership_agrees`: the channels and their groups agree in every run that keeps
  to this;
* `F2fDcNetBridge.participants_have_keys`: every participant is a friend or ourselves, as long as
  no friend is removed and we do not rename ourselves while a channel lists the old uid.
-/

namespace ChronoShift

open ToMathlib

namespace F2fDcNetBridge

variable {prim : Primitives} {serde : Serde}

/-! ## Channels and groups -/

/-- The group of every channel has the ids of the participants as its members, and neither lists
anybody twice. -/
def MembersAgree (prim : Primitives) (b : Bridge) : Prop :=
  ∀ name ch, b.channels.lookup name = some ch → ∃ g, b.groups.lookup name = some g ∧
    ch.participants.Nodup ∧ g.peerIds.Nodup ∧
    ∀ id, id ∈ g.peerIds ↔ id ∈ ch.participants.map (peerIdOf prim)

/-- Who is removed from a channel has another id than the other participants. -/
def RemovesOne (prim : Primitives) (b : Bridge) : WalOperation → Prop
  | .leaveChannel channel uid =>
    ∀ u ∈ b.listParticipants channel, u ≠ uid → peerIdOf prim u ≠ peerIdOf prim uid
  | _ => True

/-- A snapshot has each channel once, each of its participants once, and us among them. -/
structure ListsUs (prim : Primitives) (snap : SocialSnapshot) : Prop where
  names : (snap.channels.map ChannelRecord.name).Nodup
  nodup : ∀ c ∈ snap.channels, c.participants.Nodup
  us : ∀ c ∈ snap.channels, peerIdOf prim snap.uid ∈ c.participants.map (peerIdOf prim)

/-- We take part in every channel. -/
def TakesPart (prim : Primitives) (b : F2fDcNetBridge) : Prop :=
  ∀ name ch, b.channels.lookup name = some ch →
    peerIdOf prim b.myUid ∈ ch.participants.map (peerIdOf prim)

section Agree

variable {b b' : Bridge}

/-- A quiet step touches neither participants nor members. -/
theorem MembersAgree.quiet (h : MembersAgree prim b) (hquiet : Quiet b b') :
    MembersAgree prim b' := by
  intro name ch' hch'
  obtain ⟨ch, hch, -, hparticipants⟩ := hquiet.exists_channel hch'
  obtain ⟨g, hg, hnodup, hids, hiff⟩ := h name ch hch
  have hgroup := hquiet.groups name
  rw [hg, Option.map_some, Option.map_eq_some_iff] at hgroup
  obtain ⟨g', hg', heq⟩ := hgroup
  rw [← hparticipants]
  exact ⟨g', hg', hnodup, heq ▸ hids, heq ▸ hiff⟩

/-- A new channel lists us, and we are in its group. -/
theorem MembersAgree.createChannelNoLog (h : MembersAgree prim b) (name : String) :
    MembersAgree prim (b.createChannelNoLog prim name) := by
  unfold Bridge.createChannelNoLog
  split
  · exact h
  · intro n ch hch
    rw [HashMap.lookup_insert_ite] at hch
    rw [HashMap.lookup_insert_ite]
    split at hch
    next hn =>
      rw [if_pos hn, ← Option.some.inj hch]
      refine ⟨_, rfl, List.nodup_singleton _, ((DcGroup.Sound.new _ 2 1).join _).nodup,
        fun id => ?_⟩
      rw [DcGroup.mem_peerIds_join, List.map_singleton, List.mem_singleton]
      exact or_iff_right (List.not_mem_nil)
    next hn =>
      rw [if_neg hn]
      exact h n ch hch

/-- A friend that joins is added to the channel and to its group. -/
theorem MembersAgree.joinOne (h : MembersAgree prim b) (hb : KnowsFriends prim b)
    {channel uid : String} (hjoin : b.joinOne channel uid = some b') : MembersAgree prim b' := by
  obtain ⟨ch, group, f, hch, hgroup, -, hf, -, hnew, rfl⟩ := Bridge.joinOne_eq_some hjoin
  intro n ch' hch'
  rw [HashMap.lookup_insert_ite] at hch'
  rw [HashMap.lookup_insert_ite]
  split at hch'
  next hn =>
    obtain ⟨g, hg, hnodup, hids, hiff⟩ := h channel ch hch
    obtain rfl := Option.some.inj (hgroup.symm.trans hg)
    rw [if_pos hn, ← Option.some.inj hch']
    refine ⟨_, rfl, ?_, DcGroup.nodup_peerIds_join hids _, fun id => ?_⟩
    · exact hnodup.append (List.nodup_singleton _) (List.disjoint_singleton.mpr hnew)
    · rw [DcGroup.mem_peerIds_join, hiff, List.map_append, List.mem_append, List.map_singleton,
        List.mem_singleton, (hb uid f hf).2]
  next hn =>
    rw [if_neg hn]
    exact h n ch' hch'

/-- A participant that is removed leaves the group, if no other one has its id. -/
theorem MembersAgree.removeParticipant (h : MembersAgree prim b) {channel uid : String}
    (hone : RemovesOne prim b (.leaveChannel channel uid)) :
    MembersAgree prim (b.removeParticipant prim channel uid) := by
  intro n ch' hch'
  rw [Bridge.removeParticipant, HashMap.lookup_modify] at hch'
  rw [Bridge.removeParticipant, HashMap.lookup_modify]
  split at hch'
  next hn =>
    obtain ⟨ch, hch, rfl⟩ := Option.map_eq_some_iff.mp hch'
    obtain ⟨g, hg, hnodup, hids, hiff⟩ := h n ch hch
    have hlist : b.listParticipants channel = ch.participants := by
      rw [Bridge.listParticipants, ← hn, hch]
      rfl
    rw [if_pos hn, hg, Option.map_some]
    refine ⟨_, rfl, hnodup.filter _, DcGroup.nodup_peerIds_leave hids _, fun id => ?_⟩
    rw [DcGroup.mem_peerIds_leave, hiff]
    simp only [List.mem_map, List.mem_filter, decide_eq_true_eq]
    -- the group drops an id and the channel a uid, which is the same if the uid has its own id
    constructor
    · rintro ⟨⟨u, hu, rfl⟩, hne⟩
      exact ⟨u, ⟨hu, fun heq => hne (heq ▸ rfl)⟩, rfl⟩
    · rintro ⟨u, ⟨hu, hne⟩, rfl⟩
      exact ⟨⟨u, hu, rfl⟩, hone u (hlist ▸ hu) hne⟩
  next hn =>
    rw [if_neg hn]
    exact h n ch' hch'

/-- A replayed operation changes participants and members together. -/
theorem MembersAgree.applyOpNoLog (h : MembersAgree prim b) (hb : Sound prim b) (fresh : Bytes32)
    {op : WalOperation} (hone : RemovesOne prim b op) :
    MembersAgree prim (b.applyOpNoLog prim fresh op) := by
  cases op with
  | updateEdgeKey uid keyHex =>
    rw [Bridge.applyOpNoLog]
    split <;> exact h
  | createChannel name => exact h.createChannelNoLog name
  | joinChannel channel uid =>
    rw [Bridge.applyOpNoLog, Bridge.joinChannelNoLog]
    split
    next b' hjoin => exact h.joinOne hb.friends hjoin
    next => exact h
  | leaveChannel channel uid =>
    rw [Bridge.applyOpNoLog]
    split_ifs with huid
    · exact h.removeParticipant (huid ▸ hone)
    · exact h.removeParticipant hone
    · exact h
  | _ => exact h

/-- A channel that is loaded has the participants of its record, and its group has us besides. -/
theorem restoreChannel_of_new {c : ChannelRecord} (h : c.name ∉ b.channels) (n : String) :
    (b.restoreChannel prim c).channels.lookup n =
        (if n = c.name then some ⟨c.name, c.topic, c.participants, 0, false⟩
        else b.channels.lookup n) ∧
      (b.restoreChannel prim c).groups.lookup n =
        if n = c.name then some ((c.participants.map (peerIdOf prim)).foldl DcGroup.join
          ((DcGroup.new (prim.sha256 (asBytes c.name)) 2 1).join (peerIdOf prim b.myUid)))
        else b.groups.lookup n := by
  simp only [Bridge.restoreChannel, Bridge.createChannelNoLog, if_neg h, HashMap.lookup_modify,
    HashMap.lookup_insert_ite, List.foldl_map]
  constructor <;> split <;> rfl

/-- A restored channel does not change who we are. -/
theorem myUid_restoreChannel (b : Bridge) (c : ChannelRecord) :
    (b.restoreChannel prim c).myUid = b.myUid := by
  unfold Bridge.restoreChannel Bridge.createChannelNoLog
  split <;> rfl

/-- The group of a restored channel gets the listed participants, and us. -/
theorem MembersAgree.restoreChannel (h : MembersAgree prim b) {c : ChannelRecord}
    (hnew : c.name ∉ b.channels) (hnodup : c.participants.Nodup)
    (hus : peerIdOf prim b.myUid ∈ c.participants.map (peerIdOf prim)) :
    MembersAgree prim (b.restoreChannel prim c) := by
  intro n ch hch
  obtain ⟨hchannel, hgroup⟩ := @restoreChannel_of_new prim b c hnew n
  rw [hchannel] at hch
  rw [hgroup]
  split at hch
  next hn =>
    rw [if_pos hn, ← Option.some.inj hch]
    refine ⟨_, rfl, hnodup, ?_, fun id => ?_⟩
    · exact (((DcGroup.Sound.new _ 2 1).join _).foldl_join _).nodup
    · rw [DcGroup.mem_peerIds_foldl_join, DcGroup.mem_peerIds_join]
      constructor
      · rintro ((hid | rfl) | hid)
        · exact absurd hid List.not_mem_nil
        -- we are listed ourselves, so the creator adds nobody
        · exact hus
        · exact hid
      · exact Or.inr
  next hn =>
    rw [if_neg hn]
    exact h n ch hch

/-- The channels of a snapshot, each restored once. -/
theorem MembersAgree.foldl_restoreChannel (h : MembersAgree prim b) {records : List ChannelRecord}
    (hnames : (records.map ChannelRecord.name).Nodup)
    (hnew : ∀ c ∈ records, c.name ∉ b.channels) (hnodup : ∀ c ∈ records, c.participants.Nodup)
    (hus : ∀ c ∈ records, peerIdOf prim b.myUid ∈ c.participants.map (peerIdOf prim)) :
    MembersAgree prim (records.foldl (fun b c => b.restoreChannel prim c) b) := by
  induction records generalizing b with
  | nil => exact h
  | cons c records ih =>
    obtain ⟨hname, hnames⟩ := List.nodup_cons.mp hnames
    obtain ⟨hc, hnew⟩ := List.forall_mem_cons.mp hnew
    obtain ⟨hc', hnodup⟩ := List.forall_mem_cons.mp hnodup
    obtain ⟨hc'', hus⟩ := List.forall_mem_cons.mp hus
    refine ih (h.restoreChannel hc hc' hc'') hnames (fun r hr => ?_) hnodup fun r hr => ?_
    · have hne : r.name ≠ c.name := fun heq => hname (heq ▸ List.mem_map_of_mem hr)
      rw [← AList.lookup_eq_none, (restoreChannel_of_new hc r.name).1, if_neg hne,
        AList.lookup_eq_none]
      exact hnew r hr
    · rw [myUid_restoreChannel]
      exact hus r hr

/-- A snapshot in which every channel lists us. -/
theorem MembersAgree.applySnapshot (b : Bridge) (fresh : ℕ → Bytes32) {snap : SocialSnapshot}
    (hsnap : ListsUs prim snap) : MembersAgree prim (b.applySnapshot prim fresh snap) := by
  refine MembersAgree.foldl_restoreChannel (fun name ch hch => ?_) hsnap.names (fun c _ => ?_)
    hsnap.nodup hsnap.us
  · simp at hch
  · exact AList.notMem_empty _

/-- The snapshot of a bridge in which we take part in every channel. -/
theorem MembersAgree.snapshot {b : F2fDcNetBridge} (h : MembersAgree prim b.toBridge)
    (hb : Sound prim b.toBridge) (hus : TakesPart prim b) : ListsUs prim b.toBridge.snapshot := by
  have hlookup : ∀ c ∈ b.toBridge.snapshot.channels, ∃ name ch,
      b.channels.lookup name = some ch ∧ c.participants = ch.participants := by
    intro c hc
    obtain ⟨ch, hch, rfl⟩ := List.mem_map.mp hc
    obtain ⟨p, hp, rfl⟩ := List.mem_map.mp hch
    exact ⟨p.1, p.2, HashMap.mem_pairs_iff.mp hp, rfl⟩
  refine ⟨?_, fun c hc => ?_, fun c hc => ?_⟩
  · have hnames : b.toBridge.snapshot.channels.map ChannelRecord.name =
        (HashMap.pairs b.channels).map Prod.fst := by
      simp only [Bridge.snapshot, HashMap.values, List.map_map]
      refine List.map_congr_left fun p hp => ?_
      exact hb.wellFormed.name p.1 p.2 (HashMap.mem_pairs_iff.mp hp)
    rw [hnames]
    exact HashMap.nodup_keys b.channels
  · obtain ⟨name, ch, hch, heq⟩ := hlookup c hc
    obtain ⟨g, -, hnodup, -⟩ := h name ch hch
    rw [heq]
    exact hnodup
  · obtain ⟨name, ch, hch, heq⟩ := hlookup c hc
    rw [heq]
    exact hus name ch hch

end Agree

/-- In every run in which who is removed shares its id with nobody else in the channel, and only
snapshots are loaded in which we take part in every channel, the channels and their groups agree. -/
theorem membership_agrees (prim : Primitives) (serde : Serde) {b : F2fDcNetBridge}
    (h : Reachable prim serde (Meets (RemovesOne prim) (ListsUs prim)) (TakesPart prim) b) :
    MembersAgree prim b.toBridge := by
  refine h.invariant (fun myUid => ?_) ?_ ?_ ?_ ?_ ?_
  · intro name ch hch
    simp [Bridge.new] at hch
  · exact fun b b' _ hagree hquiet => hagree.quiet hquiet
  · exact fun b fresh op hb hagree hone => hagree.applyOpNoLog hb fresh hone
  · exact fun b fresh channel uid hb hagree => hagree.applyOpNoLog hb fresh trivial
  · exact fun b fresh snap hsnap => MembersAgree.applySnapshot b fresh hsnap
  · exact fun b target fresh hb hagree hus =>
      MembersAgree.applySnapshot target fresh (hagree.snapshot hb hus)

/-- Primitives that tell short names apart. -/
def namePrimitives : Primitives :=
  { Primitives.const with sha256 := fun bytes => Vector.ofFn fun i => bytes.getD i 0 }

/-- Carry out calls one after the other. -/
def doAll (b : F2fDcNetBridge) (calls : List Bridge.Call) : F2fDcNetBridge :=
  calls.foldl (fun b c => b.apply namePrimitives (.ofTable [] []) .still (.call c)) b

/-- Calls of a sample bridge are operations. -/
theorem reachable_doAll {b : F2fDcNetBridge}
    (h : Reachable namePrimitives (.ofTable [] []) (fun _ _ => True) (fun _ => True) b)
    (calls : List Bridge.Call) :
    Reachable namePrimitives (.ofTable [] []) (fun _ _ => True) (fun _ => True)
      (b.doAll calls) := by
  induction calls generalizing b with
  | nil => exact h
  | cons call calls ih => exact ih (h.step .still (.call call) trivial)

/-- `alice` has a channel with `bob`. -/
def aliceWithBob : F2fDcNetBridge :=
  (new "alice").doAll [.addFriend "bob" "127.0.0.1:9000" 1, .createChannel "#g",
    .joinChannel "#g" ["bob"]]

/-- `alice` has left the channel that she created. -/
def aliceOutside : F2fDcNetBridge := (new "alice").doAll [.createChannel "#g", .leaveChannel "#g"]

/-- The node starts again from the snapshot. -/
def restarted (b : F2fDcNetBridge) : F2fDcNetBridge :=
  { new "alice" with
    toBridge := (new "alice").toBridge.applySnapshot namePrimitives OpEnv.still.fresh
      b.toBridge.snapshot }

/-- Nobody is removed, and `alice` takes part in her channel when the node is started again. -/
theorem membership_agrees_restarted :
    (aliceWithBob.restarted.toBridge.listParticipants "#g" = ["alice", "bob"]) ∧
      MembersAgree namePrimitives aliceWithBob.restarted.toBridge := by
  refine ⟨by decide +kernel, membership_agrees namePrimitives (.ofTable [] []) ?_⟩
  refine .restore _ ?_ (.start "alice") fun name ch hch => ?_
  · have hstart : Reachable namePrimitives (.ofTable [] []) (Meets (RemovesOne namePrimitives)
        (ListsUs namePrimitives)) (TakesPart namePrimitives) (new "alice") := .start "alice"
    have hfriend := hstart.step .still
      (.call (.addFriend "bob" "127.0.0.1:9000" 1))
      (Meets.call (by decide +kernel : _ = [.addFriend "bob" "127.0.0.1:9000" 1])
        (by simp [RemovesOne]))
    have hcreate := hfriend.step .still (.call (.createChannel "#g"))
      (Meets.call (by decide +kernel : _ = [.createChannel "#g"]) (by simp [RemovesOne]))
    exact hcreate.step .still (.call (.joinChannel "#g" ["bob"]))
      (Meets.call (by decide +kernel : _ = [.joinChannel "#g" "bob"]) (by simp [RemovesOne]))
  · have hall : ∀ p ∈ HashMap.pairs aliceWithBob.channels,
        peerIdOf namePrimitives "alice" ∈ p.2.participants.map (peerIdOf namePrimitives) := by
      decide +kernel
    exact hall (name, ch) (HashMap.mem_pairs_iff.mpr hch)

/-- A channel that `alice` has left has her in its group after a restart. -/
theorem membership_differs :
    ¬ ∀ (prim : Primitives) (serde : Serde) (b : F2fDcNetBridge),
      Reachable prim serde (fun _ op => ∀ snap, op ≠ .applySnapshot snap) (fun _ => True) b →
        MembersAgree prim b.toBridge := by
  intro hclaim
  have hreach : Reachable namePrimitives (.ofTable [] [])
      (fun _ op => ∀ snap, op ≠ .applySnapshot snap) (fun _ => True) aliceOutside.restarted :=
    .restore _ (.step .still (.call (.leaveChannel "#g"))
      (.step .still (.call (.createChannel "#g")) (.start "alice") nofun) nofun)
      (.start "alice") trivial
  have hchannel : (aliceOutside.restarted.channels.lookup "#g").map ChannelInfo.participants =
    some [] := by decide +kernel
  have hgroup : (aliceOutside.restarted.groups.lookup "#g").map DcGroup.peerIds =
    some [peerIdOf namePrimitives "alice"] := by decide +kernel
  obtain ⟨ch, hch, hempty⟩ := Option.map_eq_some_iff.mp hchannel
  obtain ⟨g, hg, -, -, hiff⟩ := hclaim _ _ _ hreach "#g" ch hch
  rw [hg, Option.map_some, Option.some.injEq] at hgroup
  have hmem := (hiff (peerIdOf namePrimitives "alice")).mp (hgroup ▸ List.mem_singleton.mpr rfl)
  rw [hempty] at hmem
  exact absurd hmem List.not_mem_nil

end F2fDcNetBridge

/-! ## Keys of the participants -/

namespace Social

/-- Every participant of a channel is a friend or ourselves. -/
def Keyed (s : Social) : Prop :=
  ∀ name ps, s.channels name = some ps → ∀ u ∈ ps, u = s.uid ∨ s.friends u ≠ none

/-- No channel lists the uid. -/
def Unlisted (s : Social) (uid : String) : Prop :=
  ∀ name ps, s.channels name = some ps → uid ∉ ps

/-- A friend who is removed is in no channel, unless it is our own uid. When we rename ourselves, no
channel lists the old uid, unless it is the uid of a friend. -/
def KeepsKeys (s : Social) : WalOperation → Prop
  | .removeFriend uid => uid = s.uid ∨ s.Unlisted uid
  | .setUid uid => uid = s.uid ∨ s.friends s.uid ≠ none ∨ s.Unlisted s.uid
  | _ => True

variable {s : Social}

/-- Change one friend, who may go if no channel lists it. -/
theorem Keyed.friend (h : s.Keyed) {uid : String} {friend : Option (String × UInt8)}
    (hkeep : s.friends uid ≠ none → friend = none → uid = s.uid ∨ s.Unlisted uid) :
    { s with friends := Function.update s.friends uid friend }.Keyed := by
  intro name ps hps u hu
  rcases h name ps hps u hu with huid | hfriend
  · exact .inl huid
  · dsimp only
    rw [Function.update_apply]
    split
    next heq =>
      subst heq
      by_cases hnone : friend = none
      · rcases hkeep hfriend hnone with huid | hunlisted
        · exact .inl huid
        · exact absurd hu (hunlisted name ps hps)
      · exact .inr hnone
    next => exact .inr hfriend

/-- Change the participants of one channel. -/
theorem Keyed.channel (h : s.Keyed) {channel : String} {participants : Option (List String)}
    (hnew : ∀ ps, participants = some ps → ∀ u ∈ ps, u = s.uid ∨ s.friends u ≠ none) :
    { s with channels := Function.update s.channels channel participants }.Keyed := by
  intro name ps hps u hu
  dsimp only at hps
  rw [Function.update_apply] at hps
  split at hps
  · exact hnew ps hps u hu
  · exact h name ps hps u hu

/-- No operation lists a participant who is not a friend, if none takes a listed friend away. -/
theorem Keyed.apply (h : s.Keyed) {op : WalOperation} (hop : s.KeepsKeys op) :
    (s.apply op).Keyed := by
  cases op with
  | addFriend uid addr trust => exact h.friend nofun
  | removeFriend uid => exact h.friend fun _ _ => hop
  | updateTrust uid trust =>
    exact h.friend fun hfriend hnone => absurd (Option.map_eq_none_iff.mp hnone) hfriend
  | createChannel name =>
    -- a channel that exists keeps its participants
    refine h.channel fun ps hps u hu => ?_
    cases hname : s.channels name with
    | none =>
      rw [hname, Option.some.injEq] at hps
      rw [← hps] at hu
      exact .inl (List.mem_singleton.mp hu)
    | some old =>
      rw [hname, Option.some.injEq, Option.getD_some] at hps
      exact h name old hname u (hps ▸ hu)
  | joinChannel channel uid =>
    rw [Social.apply]
    split
    next hadmits =>
      refine h.channel fun ps hps u hu => ?_
      obtain ⟨old, hold, rfl⟩ := Option.map_eq_some_iff.mp hps
      have hmem : u ∈ old ∨ u = uid := by
        split at hu
        · exact .inl hu
        · simpa using hu
      rcases hmem with hmem | rfl
      · exact h channel old hold u hmem
      -- who joins is a friend
      · obtain ⟨-, f, hf, -⟩ := hadmits
        exact .inr (Option.ne_none_iff_exists'.mpr ⟨f, hf⟩)
    next => exact h
  | leaveChannel channel uid =>
    refine h.channel fun ps hps u hu => ?_
    obtain ⟨old, hold, rfl⟩ := Option.map_eq_some_iff.mp hps
    exact h channel old hold u (List.mem_of_mem_filter hu)
  | setUid uid =>
    intro name ps hps u hu
    -- who was listed as ourselves has to be a friend now
    rcases h name ps hps u hu with rfl | hfriend
    · rcases hop with rfl | hfriend | hunlisted
      · exact .inl rfl
      · exact .inr hfriend
      · exact absurd hu (hunlisted name ps hps)
    · exact .inr hfriend
  | _ => exact h

end Social

namespace F2fDcNetBridge

variable {prim : Primitives} {serde : Serde}

/-- The participants of a channel in the plain state. -/
theorem social_channels {b : Bridge} {name : String} {ch : ChannelInfo}
    (h : b.channels.lookup name = some ch) : b.social.channels name = some ch.participants := by
  show (b.channels.lookup name).map _ = _
  rw [h, Option.map_some]

/-- The plain state has the same friends. -/
theorem social_friends_ne_none {b : Bridge} {uid : String} :
    b.social.friends uid ≠ none ↔ uid ∈ b.friends := by
  show (b.friends.lookup uid).map _ ≠ none ↔ _
  rw [Ne, Option.map_eq_none_iff, AList.lookup_eq_none, not_not]

/-- A quiet step leaves friends and participants where they are. -/
theorem keyed_quiet {b b' : Bridge} (h : b.social.Keyed) (hquiet : Quiet b b') :
    b'.social.Keyed := by
  intro name ps hps u hu
  obtain ⟨ch', hch', rfl⟩ := Option.map_eq_some_iff.mp hps
  obtain ⟨ch, hch, -, heq⟩ := hquiet.exists_channel hch'
  rcases h name ch.participants (social_channels hch) u (heq ▸ hu) with huid | hfriend
  · exact .inl (huid.trans hquiet.myUid.symm)
  · refine .inr (social_friends_ne_none.mpr ?_)
    obtain ⟨f, hf⟩ := HashMap.mem_iff_exists_lookup.mp (social_friends_ne_none.mp hfriend)
    have hmap := hquiet.friends u
    rw [hf, Option.map_some, Option.map_eq_some_iff] at hmap
    obtain ⟨f', hf', -⟩ := hmap
    exact HashMap.mem_iff_exists_lookup.mpr ⟨f', hf'⟩

/-- In every run in which removed friends are in no channel, and no channel lists our old uid when
we rename ourselves, every participant of a channel is ourselves or has an edge key. -/
theorem participants_have_keys (prim : Primitives) (serde : Serde) {b : F2fDcNetBridge}
    (h : Reachable prim serde (Meets (fun b op => b.social.KeepsKeys op) fun snap =>
      snap.social.Keyed) (fun _ => True) b) (name : String) :
    ∀ u ∈ b.toBridge.listParticipants name, u = b.myUid ∨ u ∈ b.toBridge.edgeKeyMap := by
  have hkeyed : b.toBridge.social.Keyed := by
    refine Reachable.invariant (P := fun b => b.social.Keyed) h (fun myUid => ?_) ?_ ?_ ?_ ?_ ?_
    · nofun
    -- a quiet step changes neither friends nor participants
    · exact fun b b' _ hkeyed hquiet => keyed_quiet hkeyed hquiet
    · intro b fresh op hb hkeyed hop
      rw [Bridge.social_applyOpNoLog hb.wellFormed]
      exact hkeyed.apply hop
    · intro b fresh channel uid hb hkeyed
      rw [Bridge.social_applyOpNoLog hb.wellFormed]
      exact hkeyed.apply trivial
    · intro b fresh snap hsnap
      rw [Bridge.social_applySnapshot]
      exact hsnap
    · intro b target fresh hb hkeyed _
      rw [Bridge.social_applySnapshot, Bridge.social_snapshot hb.wellFormed]
      exact hkeyed
  -- a participant who is a friend has the key of the friend
  intro u hu
  rw [Bridge.listParticipants] at hu
  cases hch : b.channels.lookup name with
  | none =>
    rw [hch] at hu
    cases hu
  | some ch =>
    rw [hch] at hu
    refine (hkeyed name ch.participants (social_channels hch) u hu).imp_right fun hfriend => ?_
    obtain ⟨f, hf⟩ := HashMap.mem_iff_exists_lookup.mp (social_friends_ne_none.mp hfriend)
    rw [← AList.lookup_isSome, Bridge.lookup_edgeKeyMap, hf]
    rfl

/-- `alice` removes a friend who is in none of her channels. -/
def aliceWithoutCarol : F2fDcNetBridge :=
  aliceWithBob.doAll [.addFriend "carol" "127.0.0.1:9001" 1, .removeFriend "carol"]

/-- Carol has left, and the others have keys. -/
theorem participants_have_keys_other :
    aliceWithoutCarol.toBridge.listParticipants "#g" = ["alice", "bob"] ∧
      ∀ u ∈ aliceWithoutCarol.toBridge.listParticipants "#g",
        u = aliceWithoutCarol.myUid ∨ u ∈ aliceWithoutCarol.toBridge.edgeKeyMap := by
  refine ⟨by decide +kernel, participants_have_keys namePrimitives (.ofTable [] []) ?_ "#g"⟩
  have hstart : Reachable namePrimitives (.ofTable [] []) (Meets (fun b op => b.social.KeepsKeys op)
      fun snap => snap.social.Keyed) (fun _ => True) (new "alice") := .start "alice"
  have hbob := hstart.step .still (.call (.addFriend "bob" "127.0.0.1:9000" 1))
    (Meets.call (by decide +kernel : _ = [.addFriend "bob" "127.0.0.1:9000" 1])
      (by simp [Social.KeepsKeys]))
  have hcreate := hbob.step .still (.call (.createChannel "#g"))
    (Meets.call (by decide +kernel : _ = [.createChannel "#g"]) (by simp [Social.KeepsKeys]))
  have hjoin := hcreate.step .still (.call (.joinChannel "#g" ["bob"]))
    (Meets.call (by decide +kernel : _ = [.joinChannel "#g" "bob"]) (by simp [Social.KeepsKeys]))
  have hcarol := hjoin.step .still (.call (.addFriend "carol" "127.0.0.1:9001" 1))
    (Meets.call (by decide +kernel : _ = [.addFriend "carol" "127.0.0.1:9001" 1])
      (by simp [Social.KeepsKeys]))
  refine hcarol.step .still (.call (.removeFriend "carol"))
    (Meets.call (by decide +kernel : _ = [.removeFriend "carol"]) ?_)
  refine List.forall_mem_singleton.mpr (.inr fun name ps hps => ?_)
  obtain ⟨ch, hch, rfl⟩ := Option.map_eq_some_iff.mp hps
  have hall : ∀ p ∈ HashMap.pairs aliceWithBob.channels, "carol" ∉ p.2.participants := by
    decide +kernel
  exact hall (name, ch) (HashMap.mem_pairs_iff.mpr hch)

/-- A friend who is removed stays in the channel. -/
theorem participant_without_key :
    ¬ ∀ (prim : Primitives) (serde : Serde) (b : F2fDcNetBridge),
      Reachable prim serde (fun _ op => ∃ c, op = .call c) (fun _ => False) b →
        ∀ name, ∀ u ∈ b.toBridge.listParticipants name,
          u = b.myUid ∨ u ∈ b.toBridge.edgeKeyMap := by
  intro hclaim
  have hreach : Reachable namePrimitives (.ofTable [] []) (fun _ op => ∃ c, op = .call c)
      (fun _ => False) (aliceWithBob.doAll [.removeFriend "bob"]) :=
    .step .still (.call (.removeFriend "bob")) (.step .still (.call (.joinChannel "#g" ["bob"]))
      (.step .still (.call (.createChannel "#g")) (.step .still
        (.call (.addFriend "bob" "127.0.0.1:9000" 1)) (.start "alice") ⟨_, rfl⟩) ⟨_, rfl⟩)
        ⟨_, rfl⟩) ⟨_, rfl⟩
  exact absurd (hclaim _ _ _ hreach "#g" "bob" (by decide +kernel)) (by decide +kernel)

end F2fDcNetBridge

end ChronoShift
