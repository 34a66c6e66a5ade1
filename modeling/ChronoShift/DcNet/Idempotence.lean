import ChronoShift.DcNet.Recovery
import ChronoShift.ToMathlib.Fold

/-!
# Replaying a log over its own snapshot

A crash between the rename of the snapshot and the truncation of the log leaves a log whose
operations the snapshot already contains. The restart replays them once more, over the state they
led to.

The uid and the friends are overwritten, so they come out the same. Participants need not: an
operation `JoinChannel` is logged before the bridge decides whether the uid may join, and what is
decided at the replay depends on the trust and the uid in force then.

* `Social.member_applyAll`: who is in a channel after a list of operations;
* `Bridge.replay_idempotent_iff`: when the replay comes out the same.
-/

namespace ChronoShift

open ToMathlib

namespace Social

/-! ## The uid and the friends -/

/-- What an operation does to our uid. -/
def uidStep (uid : String) : WalOperation → String
  | .setUid uid' => uid'
  | _ => uid

/-- What an operation does to one friend. -/
def friendStep (uid : String) (f : Option (String × UInt8)) :
    WalOperation → Option (String × UInt8)
  | .addFriend uid' addr trust => if uid = uid' then some (addr, min trust 2) else f
  | .removeFriend uid' => if uid = uid' then none else f
  | .updateTrust uid' trust => if uid = uid' then f.map fun f => (f.1, min trust 2) else f
  | _ => f

/-- The last operation that sets the uid decides. -/
theorem overwriting_uidStep : Overwriting uidStep where
  idem uid op := by cases op <;> rfl
  absorb uid op op' := by cases op <;> cases op' <;> rfl

/-- An operation leaves a friend alone, replaces it, or sets its trust. -/
theorem friendStep_cases (uid : String) (op : WalOperation) :
    (∀ f, friendStep uid f op = f) ∨ (∃ c, ∀ f, friendStep uid f op = c) ∨
      ∃ t, ∀ f, friendStep uid f op = f.map fun f => (f.1, t) := by
  by_cases h : ∀ f, friendStep uid f op = f
  · exact Or.inl h
  right
  cases op with
  | addFriend uid' addr trust =>
    by_cases huid : uid = uid'
    · exact Or.inl ⟨some (addr, min trust 2), fun f => if_pos huid⟩
    · exact absurd (fun f => if_neg huid) h
  | removeFriend uid' =>
    by_cases huid : uid = uid'
    · exact Or.inl ⟨none, fun f => if_pos huid⟩
    · exact absurd (fun f => if_neg huid) h
  | updateTrust uid' trust =>
    by_cases huid : uid = uid'
    · exact Or.inr ⟨min trust 2, fun f => if_pos huid⟩
    · exact absurd (fun f => if_neg huid) h
  | _ => exact absurd (fun f => rfl) h

/-- A friend can be replayed twice: what was done to it is overwritten or done again. -/
theorem overwriting_friendStep (uid : String) : Overwriting (friendStep uid) where
  idem f op := by
    rcases friendStep_cases uid op with h | ⟨c, h⟩ | ⟨t, h⟩ <;> simp [h, Function.comp_def]
  absorb f op op' := by
    rcases friendStep_cases uid op with h | ⟨c, h⟩ | ⟨t, h⟩ <;>
      rcases friendStep_cases uid op' with h' | ⟨c', h'⟩ | ⟨t', h'⟩ <;>
      simp [h, h', Function.comp_def]

/-- Our uid follows from the operations on it. -/
theorem uid_applyAll (s : Social) (ops : List WalOperation) :
    (s.applyAll ops).uid = ops.foldl uidStep s.uid := by
  refine (List.foldl_hom Social.uid fun s op => ?_).symm
  cases op with
  | joinChannel channel uid =>
    rw [apply]
    split <;> rfl
  | _ => rfl

/-- A friend follows from the operations on it. -/
theorem friends_applyAll (s : Social) (uid : String) (ops : List WalOperation) :
    (s.applyAll ops).friends uid = ops.foldl (friendStep uid) (s.friends uid) := by
  refine (List.foldl_hom (fun s : Social => s.friends uid) fun s op => ?_).symm
  cases op with
  | addFriend | removeFriend => simp only [apply, friendStep, Function.update_apply]
  | updateTrust =>
    simp only [apply, friendStep, Function.update_apply]
    split
    next h => rw [h]
    next => rfl
  | joinChannel channel uid =>
    rw [apply]
    split <;> rfl
  | _ => rfl

/-! ## Participants -/

/-- The uid takes part in the channel. -/
def Member (s : Social) (channel uid : String) : Prop := ∃ ps ∈ s.channels channel, uid ∈ ps

instance (s : Social) (channel uid : String) : Decidable (s.Member channel uid) :=
  inferInstanceAs (Decidable (∃ ps, ps ∈ s.channels channel ∧ _))

/-- The members of an existing channel. -/
theorem member_iff {s : Social} {channel uid : String} {ps : List String}
    (h : s.channels channel = some ps) : s.Member channel uid ↔ uid ∈ ps := by
  simp [Member, h]

/-- Some entry joins the uid to the channel for good: the uid may join when the entry is replayed,
and no later entry removes it. -/
def Rejoins (channel uid : String) : Social → List WalOperation → Prop
  | _, [] => False
  | s, op :: ops =>
    (op = .joinChannel channel uid ∧ s.Admits uid ∧ .leaveChannel channel uid ∉ ops) ∨
      Rejoins channel uid (s.apply op) ops

/-- Channels are created and never removed. -/
theorem channels_apply_ne_none {s : Social} {channel : String} {op : WalOperation} :
    (s.apply op).channels channel ≠ none ↔
      s.channels channel ≠ none ∨ op = .createChannel channel := by
  cases op with
  | createChannel name =>
    by_cases h : channel = name
    · simp [apply, h]
    · simp [apply, h, Ne.symm h]
  | joinChannel channel' uid =>
    rw [apply]
    split
    · by_cases h : channel = channel' <;> simp [h]
    · simp
  | leaveChannel channel' uid => by_cases h : channel = channel' <;> simp [apply, h]
  | _ => simp [apply]

/-- The channels after a log: those before it, and those it creates. -/
theorem channels_applyAll_ne_none {s : Social} {channel : String} {ops : List WalOperation} :
    (s.applyAll ops).channels channel ≠ none ↔
      s.channels channel ≠ none ∨ .createChannel channel ∈ ops := by
  induction ops generalizing s with
  | nil => simp
  | cons op ops ih =>
    rw [applyAll_cons, ih, channels_apply_ne_none, List.mem_cons, or_assoc,
      @eq_comm _ (WalOperation.createChannel channel) op]

/-- Who is in an existing channel after one operation. -/
theorem member_apply {s : Social} {channel uid : String} (h : s.channels channel ≠ none)
    (op : WalOperation) :
    (s.apply op).Member channel uid ↔
      (s.Member channel uid ∧ op ≠ .leaveChannel channel uid) ∨
        (op = .joinChannel channel uid ∧ s.Admits uid) := by
  obtain ⟨ps, hps⟩ := Option.ne_none_iff_exists'.mp h
  cases op with
  | createChannel name =>
    by_cases hc : channel = name
    · subst hc
      simp [Member, apply, hps]
    · simp [Member, apply, hc]
  | joinChannel channel' uid' =>
    rw [apply]
    by_cases hc : channel = channel'
    · subst hc
      by_cases hadmits : s.Admits uid'
      · -- the participants are as before, or `uid'` is put behind them
        rw [if_pos hadmits, member_iff (Function.update_self ..|>.trans (by rw [hps]; rfl)),
          member_iff hps]
        by_cases hu : uid = uid'
        · subst hu
          by_cases hmem : uid ∈ ps <;> simp [hmem, hadmits]
        · by_cases hmem : uid' ∈ ps <;> simp [hmem, hu, Ne.symm hu]
      · by_cases hu : uid' = uid <;> simp_all [Member]
    · split <;> simp [Member, hc, Ne.symm hc]
  | leaveChannel channel' uid' =>
    by_cases hc : channel = channel'
    · subst hc
      by_cases hu : uid = uid' <;> simp [Member, apply, hps, hu, eq_comm]
    · simp [Member, apply, hc, Ne.symm hc]
  | _ => simp [Member, apply]

/-- Who is in an existing channel after a list of operations: those who were in it and are not
removed, and those who join for good. -/
theorem member_applyAll {s : Social} {channel uid : String} (h : s.channels channel ≠ none)
    (ops : List WalOperation) :
    (s.applyAll ops).Member channel uid ↔
      (s.Member channel uid ∧ .leaveChannel channel uid ∉ ops) ∨ Rejoins channel uid s ops := by
  induction ops generalizing s with
  | nil => simp [Rejoins]
  | cons op ops ih =>
    have hnext : (s.apply op).channels channel ≠ none := channels_apply_ne_none.mpr (Or.inl h)
    -- what remains is propositional: `op` removes the uid, joins it, or does neither
    rw [applyAll_cons, ih hnext, member_apply h, Rejoins, List.mem_cons,
      @eq_comm _ (WalOperation.leaveChannel channel uid) op]
    tauto

/-- Same uid, same friends, and the same channels with the same participants. -/
structure Same (s s' : Social) : Prop where
  uid : s.uid = s'.uid
  friends : s.friends = s'.friends
  channels : ∀ channel, s.channels channel ≠ none ↔ s'.channels channel ≠ none
  member : ∀ channel uid, s.Member channel uid ↔ s'.Member channel uid

/-- Replaying `ops` over `s` joins and removes nobody for good: who joins is in the channel anyway,
and who is removed joins again. -/
def KeepsMembers (s : Social) (ops : List WalOperation) : Prop :=
  ∀ channel uid, s.channels channel ≠ none →
    (Rejoins channel uid s ops → s.Member channel uid) ∧
    (s.Member channel uid → .leaveChannel channel uid ∈ ops → Rejoins channel uid s ops)

/-- A log leaves a membership as it was if whoever joins was a member, and whoever leaves and was a
member joins again. -/
theorem member_applyAll_iff {s : Social} {channel uid : String} (h : s.channels channel ≠ none)
    (ops : List WalOperation) :
    ((s.applyAll ops).Member channel uid ↔ s.Member channel uid) ↔
      (Rejoins channel uid s ops → s.Member channel uid) ∧
      (s.Member channel uid → .leaveChannel channel uid ∈ ops → Rejoins channel uid s ops) := by
  rw [member_applyAll h]
  tauto

/-- When operations can be replayed over the state they led to. -/
theorem same_applyAll_applyAll_iff (s : Social) (ops : List WalOperation) :
    ((s.applyAll ops).applyAll ops).Same (s.applyAll ops) ↔ (s.applyAll ops).KeepsMembers ops := by
  constructor
  · intro h channel uid hchannel
    exact (member_applyAll_iff hchannel ops).mp (h.member channel uid)
  · intro h
    have hchannels (channel : String) :
        ((s.applyAll ops).applyAll ops).channels channel ≠ none ↔
          (s.applyAll ops).channels channel ≠ none := by
      rw [channels_applyAll_ne_none, channels_applyAll_ne_none, or_assoc, or_self]
    -- uid and friends are overwritten, so they come out the same without any condition
    refine ⟨?_, funext fun uid => ?_, hchannels, fun channel uid => ?_⟩
    · rw [uid_applyAll, uid_applyAll, overwriting_uidStep.foldl_foldl]
    · rw [friends_applyAll, friends_applyAll, (overwriting_friendStep uid).foldl_foldl]
    · by_cases hchannel : (s.applyAll ops).channels channel = none
      -- no operation brings back a channel that does not exist after them
      · have hagain := not_iff_not.mpr (hchannels channel)
        rw [not_ne_iff, not_ne_iff] at hagain
        simp [Member, hchannel, hagain.mpr hchannel]
      · exact (member_applyAll_iff hchannel ops).mpr (h channel uid hchannel)

end Social

namespace Bridge

variable {prim : Primitives} {serde : Serde} {b : Bridge}

/-- The bridge that the startup path rebuilds from a snapshot of `b` and a log of `ops`. -/
def rebuild (prim : Primitives) (freshSnap freshLog : ℕ → Bytes32) (uid : String) (b : Bridge)
    (ops : List WalOperation) : Bridge :=
  ((new uid).applySnapshot prim freshSnap b.snapshot).applyOps prim freshLog ops

/-- A rebuilt bridge has replayed the log over the snapshot. -/
theorem social_rebuild (hb : b.WellFormed) (freshSnap freshLog : ℕ → Bytes32) (uid : String)
    (ops : List WalOperation) :
    (b.rebuild prim freshSnap freshLog uid ops).social = b.social.applyAll ops := by
  rw [rebuild, social_applyOps ((wellFormed_new uid).applySnapshot freshSnap b.snapshot),
    social_applySnapshot, social_snapshot hb]

/-- When the operations that a run logs can be replayed over the snapshot of the state they led
to. -/
theorem replay_idempotent_iff (hb : b.WellFormed) (inputs : List Input) (uid : String)
    (fresh freshSnap freshLog : ℕ → Bytes32) :
    let ops := b.logged prim serde inputs
    let b₁ := b.applyOps prim fresh ops
    (b₁.rebuild prim freshSnap freshLog uid ops).social.Same b₁.social ↔
      b₁.social.KeepsMembers ops := by
  intro ops b₁
  rw [social_rebuild (hb.applyOps prim fresh ops), social_applyOps hb]
  exact Social.same_applyAll_applyAll_iff b.social ops

/-- A bridge with the channel `x` and the friend `bob`. -/
def withBob (trust : UInt8) : Bridge :=
  (new "me").run .const bobSerde
    [callAt 1 (.addFriend "bob" "b:1" trust), callAt 2 (.createChannel "x")]

/-- Bob's trust is capped. -/
theorem wellFormed_withBob (trust : UInt8) : (withBob trust).WellFormed :=
  (wellFormed_new "me").run _

/-- A trusted friend joins, and is found in the channel when the entry is replayed. -/
theorem replay_idempotent_iff_bob :
    let ops := (withBob 1).logged .const bobSerde [callAt 3 (.joinChannel "x" ["bob"])]
    let b₁ := (withBob 1).applyOps .const (fun _ => .replicate 32 0) ops
    (b₁.rebuild .const (fun _ => .replicate 32 1) (fun _ => .replicate 32 2) "me" ops).social.Same
      b₁.social := by
  refine (replay_idempotent_iff (wellFormed_withBob 1) _ "me" _ _ _).mpr fun channel uid _ => ?_
  have hops : (withBob 1).logged .const bobSerde [callAt 3 (.joinChannel "x" ["bob"])] =
      [.joinChannel "x" "bob"] := by decide +kernel
  rw [hops]
  constructor
  · rintro (⟨hjoin, -, -⟩ | hfalse)
    · obtain ⟨rfl, rfl⟩ := WalOperation.joinChannel.inj hjoin
      decide +kernel
    · exact hfalse.elim
  · intro _ hleave
    simp at hleave

/-- A friend is refused, then trusted: the replay lets it in. -/
theorem not_replay_idempotent :
    ¬ ∀ (prim : Primitives) (serde : Serde) (b : Bridge), b.WellFormed →
      ∀ (inputs : List Input) (uid : String) (fresh freshSnap freshLog : ℕ → Bytes32),
      let ops := b.logged prim serde inputs
      let b₁ := b.applyOps prim fresh ops
      (b₁.rebuild prim freshSnap freshLog uid ops).social.Same b₁.social := by
  intro hclaim
  have h := hclaim .const bobSerde (withBob 0) (wellFormed_withBob 0)
    [callAt 3 (.joinChannel "x" ["bob"]), callAt 4 (.updateTrust "bob" 1)] "me"
    (fun _ => .replicate 32 0) (fun _ => .replicate 32 0) (fun _ => .replicate 32 0)
  exact absurd (h.member "x" "bob") (by decide +kernel)

end Bridge

end ChronoShift
