import ChronoShift.DcNet.Social

/-!
# Crash recovery of the bridge

What a restart makes of the data directory, compared with the bridge in memory. A call appends its
entries to the log, may checkpoint after each of them, and changes the memory last. A checkpoint
taken on the way therefore stores the state *before* the call and truncates the log that holds the
call's entries: unless these change nothing, they are lost.

* `WalStore.Recovers`: the data directory stands for a social state;
* `WalStore.Recovers.logAll`: logging keeps it, as long as no checkpoint loses an entry;
* `Bridge.recovers_run`: along a run without such a checkpoint, the data directory stands for the
  social state in memory.
-/

namespace ChronoShift

open ToMathlib

/-! ## Operations that change nothing -/

/-- The operation leaves the social state as it is. -/
def Social.Redundant (s : Social) : WalOperation → Prop
  | .addFriend uid addr trust => s.friends uid = some (addr, min trust 2)
  | .removeFriend uid => s.friends uid = none
  | .updateTrust uid trust => ∀ f ∈ s.friends uid, f.2 = min trust 2
  | .createChannel name => s.channels name ≠ none
  | .joinChannel channel uid => s.Admits uid → ∀ ps ∈ s.channels channel, uid ∈ ps
  | .leaveChannel channel uid => ∀ ps ∈ s.channels channel, uid ∉ ps
  | .setUid uid => uid = s.uid
  | _ => True

instance (s : Social) : (op : WalOperation) → Decidable (s.Redundant op)
  | .addFriend .. | .removeFriend .. => inferInstanceAs (Decidable (_ = _))
  | .updateTrust uid _ => inferInstanceAs (Decidable (∀ f, f ∈ s.friends uid → _))
  | .createChannel _ => inferInstanceAs (Decidable (_ ≠ _))
  | .joinChannel channel _ =>
    inferInstanceAs (Decidable (_ → ∀ ps, ps ∈ s.channels channel → _))
  | .leaveChannel channel _ => inferInstanceAs (Decidable (∀ ps, ps ∈ s.channels channel → _))
  | .setUid _ => inferInstanceAs (Decidable (_ = _))
  | .createNetwork .. | .addMember .. | .removeMember .. | .updateEdgeKey .. | .sendMessage .. =>
    inferInstanceAs (Decidable True)

/-- One friend is written. -/
theorem Social.updateFriend_eq_self_iff {s : Social} {uid : String}
    {friend : Option (String × UInt8)} :
    { s with friends := Function.update s.friends uid friend } = s ↔ friend = s.friends uid := by
  have hupdate : Function.update s.friends uid friend = s.friends ↔ friend = s.friends uid :=
    Function.update_eq_self_iff
  rw [← hupdate]
  exact ⟨congrArg Social.friends, fun h => Social.ext rfl h rfl⟩

/-- One channel is written. -/
theorem Social.updateChannel_eq_self_iff {s : Social} {channel : String}
    {participants : Option (List String)} :
    { s with channels := Function.update s.channels channel participants } = s ↔
      participants = s.channels channel := by
  have hupdate : Function.update s.channels channel participants = s.channels ↔
      participants = s.channels channel := Function.update_eq_self_iff
  rw [← hupdate]
  exact ⟨congrArg Social.channels, fun h => Social.ext rfl rfl h⟩

/-- An operation changes nothing if and only if it is redundant. -/
theorem Social.apply_eq_self_iff {s : Social} {op : WalOperation} :
    s.apply op = s ↔ s.Redundant op := by
  cases op with
  | addFriend uid addr trust => exact updateFriend_eq_self_iff.trans eq_comm
  | removeFriend uid => exact updateFriend_eq_self_iff.trans eq_comm
  | updateTrust uid trust =>
    refine updateFriend_eq_self_iff.trans ?_
    cases hf : s.friends uid with
    | none => simp [Redundant, hf]
    | some f => simp [Redundant, hf, Prod.ext_iff, eq_comm]
  | createChannel name =>
    refine updateChannel_eq_self_iff.trans ?_
    cases hps : s.channels name with
    | none => simp [Redundant, hps]
    | some ps => simp [Redundant, hps]
  | joinChannel channel uid =>
    rw [Social.apply]
    split
    next hadmits =>
      refine updateChannel_eq_self_iff.trans ?_
      cases hps : s.channels channel with
      | none => simp [Redundant, hps]
      | some ps => simp [Redundant, hps, hadmits]
    -- who is not admitted is not added
    next hrefused => exact iff_of_true rfl fun hadmits => absurd hadmits hrefused
  | leaveChannel channel uid =>
    refine updateChannel_eq_self_iff.trans ?_
    cases hps : s.channels channel with
    | none => simp [Redundant, hps]
    | some ps =>
      simp only [Redundant, hps, Option.map_some, Option.some.injEq, List.filter_eq_self,
        Option.mem_def, forall_eq', decide_eq_true_eq]
      exact ⟨fun h hmem => h uid hmem rfl, fun h u hu heq => h (heq ▸ hu)⟩
  | setUid uid => exact ⟨congrArg Social.uid, fun h => Social.ext h rfl rfl⟩
  | updateEdgeKey | createNetwork | addMember | removeMember | sendMessage =>
    exact iff_of_true rfl trivial

theorem Social.applyAll_of_redundant {s : Social} {ops : List WalOperation}
    (h : ∀ op ∈ ops, s.Redundant op) : s.applyAll ops = s := by
  induction ops with
  | nil => rfl
  | cons op ops ih =>
    rw [Social.applyAll_cons, Social.apply_eq_self_iff.mpr (h op List.mem_cons_self)]
    exact ih fun op' h' => h op' (List.mem_cons_of_mem op h')

/-! ## The state on disk -/

namespace WalStore

variable {serde : Serde} {uid : String} {w : WalStore} {s : Social}

/-- The social state before replay: that of the last checkpoint, or of a new bridge. -/
def base (serde : Serde) (uid : String) (w : WalStore) : Social :=
  ((w.loadState serde).map SocialSnapshot.social).getD (Social.new uid)

/-- The data directory stands for `s`: its log is made of complete entries, which lead from the
last checkpoint to `s`. -/
def Recovers (serde : Serde) (uid : String) (w : WalStore) (s : Social) : Prop :=
  ∃ entries : List (ℕ × WalOperation), w.dir.log = logOf serde entries ∧
    (∀ e ∈ entries, serde.Writes e.2) ∧ (w.base serde uid).applyAll (entries.map Prod.snd) = s

theorem Recovers.append (h : w.Recovers serde uid s) {op : WalOperation} (hop : serde.Writes op)
    (timestamp : ℕ) : (w.append serde timestamp op).Recovers serde uid (s.apply op) := by
  obtain ⟨entries, hlog, hwrites, hs⟩ := h
  -- the snapshot stays, and the log has one more entry
  refine ⟨entries ++ [(timestamp, op)], ?_, ?_, ?_⟩
  · simp [WalStore.append, hlog, logOf]
  · intro e he
    rcases List.mem_append.mp he with he | he
    · exact hwrites e he
    · rw [List.mem_singleton.mp he]
      exact hop
  · rw [List.map_append, Social.applyAll_append]
    exact congrArg (fun s : Social => s.apply op) hs

theorem recovers_checkpoint {snap : SocialSnapshot} (w : WalStore)
    (hsnap : serde.decodeSnapshot (serde.encodeSnapshot snap) = some snap) (now : ℕ) :
    (w.checkpoint serde snap now).Recovers serde uid snap.social := by
  refine ⟨[], rfl, by simp, ?_⟩
  simp [base, WalStore.loadState, WalStore.checkpoint, hsnap]

/-- Opening a directory whose log is made of complete entries, and replaying them. -/
theorem replay_openAt {dir : DataDir} {entries : List (ℕ × WalOperation)}
    (hlog : dir.log = logOf serde entries) (hwrites : ∀ e ∈ entries, serde.Writes e.2)
    (hsize : dir.log.length ≤ maxWalBytes) (checkpointOps now : ℕ) :
    (openAt dir checkpointOps now).replay serde = entries.map Prod.snd := by
  rw [WalStore.replay]
  exact hlog ▸ replayLog_logOf hwrites (hlog ▸ hsize)

/-- `p` holds, of the operations logged so far, whenever logging `ops` takes a checkpoint. `before`
are the operations logged before. -/
def AtCheckpoints (serde : Serde) (snap : SocialSnapshot) (p : List WalOperation → Prop)
    (before : List WalOperation) (w : WalStore) (tick : ℕ → Tick) : List WalOperation → Prop
  | [] => True
  | op :: ops =>
    ((w.append serde (tick 0).timestamp op).shouldCheckpoint (tick 0).now = true →
      p (before ++ [op])) ∧
    AtCheckpoints serde snap p (before ++ [op]) (w.logWal serde snap (tick 0) op)
      (fun i => tick (i + 1)) ops

instance decidableAtCheckpoints (serde : Serde) (snap : SocialSnapshot)
    (p : List WalOperation → Prop) [DecidablePred p] (before : List WalOperation) (w : WalStore)
    (tick : ℕ → Tick) :
    (ops : List WalOperation) → Decidable (w.AtCheckpoints serde snap p before tick ops)
  | [] => inferInstanceAs (Decidable True)
  | op :: ops =>
    have := decidableAtCheckpoints serde snap p (before ++ [op])
      (w.logWal serde snap (tick 0) op) (fun i => tick (i + 1)) ops
    inferInstanceAs (Decidable ((_ → _) ∧ _))

/-- Logging operations of a call, when the operations lost by a checkpoint are redundant. -/
theorem Recovers.logAll {snap : SocialSnapshot} {before ops : List WalOperation} {tick : ℕ → Tick}
    (h : w.Recovers serde uid (snap.social.applyAll before))
    (hwrites : ∀ op ∈ ops, serde.Writes op)
    (hsnap : w.AtCheckpoints serde snap
      (fun _ => serde.decodeSnapshot (serde.encodeSnapshot snap) = some snap) before tick ops)
    (hlost : w.AtCheckpoints serde snap (fun logged => ∀ op ∈ logged, snap.social.Redundant op)
      before tick ops) :
    (w.logAll serde snap tick ops).Recovers serde uid (snap.social.applyAll (before ++ ops)) := by
  -- induction on the entries; `before` collects those that are logged already
  induction ops generalizing w before tick with
  | nil => simpa [WalStore.logAll] using h
  | cons op ops ih =>
    have hnext : (w.logWal serde snap (tick 0) op).Recovers serde uid
        (snap.social.applyAll (before ++ [op])) := by
      unfold WalStore.logWal
      dsimp only
      split
      next hdue =>
        -- the log is gone, but its entries have not changed the state of the snapshot
        rw [Social.applyAll_of_redundant (hlost.1 hdue)]
        exact recovers_checkpoint _ (hsnap.1 hdue) _
      next =>
        rw [Social.applyAll_append]
        exact h.append (hwrites op List.mem_cons_self) _
    have hrest := ih hnext (fun op' h' => hwrites op' (List.mem_cons_of_mem op h')) hsnap.2 hlost.2
    rwa [List.append_assoc] at hrest

end WalStore

namespace Bridge

variable {prim : Primitives} {serde : Serde} {uid : String} {b : Bridge}

/-- A restart has the state that the data directory replays to. -/
theorem social_restore (freshSnap freshLog : ℕ → Bytes32) (w : WalStore) :
    (restore prim serde freshSnap freshLog uid w).social =
      (w.base serde uid).applyAll (w.replay serde) := by
  unfold restore WalStore.base
  cases w.loadState serde with
  | none => exact social_applyOps (wellFormed_new uid) _ _
  | some snap =>
    have hb := @WellFormed.applySnapshot _ prim (wellFormed_new uid) freshSnap snap
    exact (social_applyOps hb _ _).trans
      (congrArg (fun s : Social => s.applyAll _) (social_applySnapshot _ _ snap))

theorem wellFormed_restore (freshSnap freshLog : ℕ → Bytes32) (w : WalStore) :
    (restore prim serde freshSnap freshLog uid w).WellFormed := by
  unfold restore attachWal
  refine (WellFormed.applyOps ?_ prim _ _).wal _
  cases w.loadState serde with
  | none => exact wellFormed_new uid
  | some snap => exact (wellFormed_new uid).applySnapshot freshSnap snap

/-- `P` holds at every call of a run. -/
def Along (prim : Primitives) (serde : Serde) (P : Bridge → Input → Prop) :
    Bridge → List Input → Prop
  | _, [] => True
  | b, i :: inputs => P b i ∧ Along prim serde P (b.apply prim serde i) inputs

instance decidableAlong (prim : Primitives) (serde : Serde) (P : Bridge → Input → Prop)
    [∀ b, DecidablePred (P b)] :
    (b : Bridge) → (inputs : List Input) → Decidable (Along prim serde P b inputs)
  | _, [] => inferInstanceAs (Decidable True)
  | b, i :: inputs =>
    have := decidableAlong prim serde P (b.apply prim serde i) inputs
    inferInstanceAs (Decidable (_ ∧ _))

/-- What the call writes is read back as it was: its log entries, and the snapshot if it takes a
checkpoint. -/
def ReadsBack (serde : Serde) (b : Bridge) (i : Input) : Prop :=
  (∀ op ∈ b.entries i.call, serde.Writes op) ∧
  ∀ w ∈ b.wal, w.AtCheckpoints serde b.snapshot
    (fun _ => serde.decodeSnapshot (serde.encodeSnapshot b.snapshot) = some b.snapshot) [] i.tick
    (b.entries i.call)

instance (serde : Serde) (b : Bridge) : DecidablePred (b.ReadsBack serde) :=
  fun _ => inferInstanceAs (Decidable (_ ∧ ∀ w, w ∈ b.wal → _))

/-- Whenever the call takes a checkpoint, the entries it has logged so far are redundant. -/
def LosesNothing (serde : Serde) (b : Bridge) (i : Input) : Prop :=
  ∀ w ∈ b.wal, w.AtCheckpoints serde b.snapshot
    (fun logged => ∀ op ∈ logged, b.social.Redundant op) [] i.tick (b.entries i.call)

instance (serde : Serde) (b : Bridge) : DecidablePred (b.LosesNothing serde) :=
  fun _ => inferInstanceAs (Decidable (∀ w, w ∈ b.wal → _))

/-- One call keeps the data directory in step with the memory. -/
theorem recovers_apply (hb : b.WellFormed) {w : WalStore} (hw : b.wal = some w)
    (h : w.Recovers serde uid b.social) {i : Input} (hreads : b.ReadsBack serde i)
    (hlost : b.LosesNothing serde i) :
    ∃ w', (b.apply prim serde i).wal = some w' ∧
      w'.Recovers serde uid (b.apply prim serde i).social := by
  refine ⟨w.logAll serde b.snapshot i.tick (b.entries i.call), ?_, ?_⟩
  · rw [apply_eq, hw]
    rfl
  · rw [social_apply hb]
    -- a checkpoint of the call stores the state before it
    have hsnap := social_snapshot hb
    have hlost' := hlost w hw
    rw [← hsnap] at h hlost' ⊢
    exact @WalStore.Recovers.logAll serde uid w b.snapshot [] (b.entries i.call) i.tick h hreads.1
      (hreads.2 w hw) hlost'

/-- A run keeps the data directory in step with the memory. -/
theorem recovers_run (hb : b.WellFormed) {w : WalStore} (hw : b.wal = some w)
    (h : w.Recovers serde uid b.social) {inputs : List Input}
    (hreads : b.Along prim serde (ReadsBack serde) inputs)
    (hlost : b.Along prim serde (LosesNothing serde) inputs) :
    ∃ w', (b.run prim serde inputs).wal = some w' ∧
      w'.Recovers serde uid (b.run prim serde inputs).social := by
  induction inputs generalizing b w with
  | nil => exact ⟨w, hw, h⟩
  | cons i inputs ih =>
    obtain ⟨w', hw', h'⟩ := recovers_apply hb hw h hreads.1 hlost.1
    exact ih (hb.apply i) hw' h' hreads.2 hlost.2

/-- A bridge as the startup path leaves it, on a data directory whose log is made of complete
entries and is small enough to be replayed. -/
inductive Started (prim : Primitives) (serde : Serde) (uid : String) : Bridge → Prop
  | restored (dir : DataDir) (entries : List (ℕ × WalOperation))
      (hlog : dir.log = logOf serde entries) (hwrites : ∀ e ∈ entries, serde.Writes e.2)
      (hsize : dir.log.length ≤ maxWalBytes)
      (freshSnap freshLog : ℕ → Bytes32) (checkpointOps now : ℕ) :
      Started prim serde uid
        (restore prim serde freshSnap freshLog uid (WalStore.openAt dir checkpointOps now))

/-- The start of a run: the bridge has the state its data directory stands for. -/
theorem Started.recovers (hb : Started prim serde uid b) :
    b.WellFormed ∧ ∃ w, b.wal = some w ∧ w.Recovers serde uid b.social := by
  obtain ⟨dir, entries, hlog, hwrites, hsize, freshSnap, freshLog, checkpointOps, now⟩ := hb
  refine ⟨wellFormed_restore _ _ _, WalStore.openAt dir checkpointOps now, rfl, entries, hlog,
    hwrites, ?_⟩
  rw [social_restore, WalStore.replay_openAt hlog hwrites hsize]

/-- What a restart recovers from a directory that stands for `s`. -/
theorem social_restore_of_recovers {w : WalStore} {s : Social} (h : w.Recovers serde uid s)
    (hsize : w.dir.log.length ≤ maxWalBytes) (freshSnap freshLog : ℕ → Bytes32)
    (checkpointOps now : ℕ) :
    (restore prim serde freshSnap freshLog uid
      (WalStore.openAt w.dir checkpointOps now)).social = s := by
  obtain ⟨entries, hlog, hwrites, hs⟩ := h
  rw [social_restore, WalStore.replay_openAt hlog hwrites hsize]
  exact hs

/-- After a crash, a restart recovers the social state the bridge had, provided that no checkpoint
of the run was taken after an entry that its call had yet to carry out. -/
theorem crash_recovery (hb : Started prim serde uid b) (inputs : List Input)
    (hreads : b.Along prim serde (ReadsBack serde) inputs)
    (hlost : b.Along prim serde (LosesNothing serde) inputs) {w : WalStore}
    (hw : (b.run prim serde inputs).wal = some w) (hsize : w.dir.log.length ≤ maxWalBytes)
    (freshSnap freshLog : ℕ → Bytes32) (checkpointOps now : ℕ) :
    (restore prim serde freshSnap freshLog uid (WalStore.openAt w.dir checkpointOps now)).social =
      (b.run prim serde inputs).social := by
  obtain ⟨hwf, w₀, hw₀, hstart⟩ := hb.recovers
  obtain ⟨w', hw', hend⟩ := recovers_run hwf hw₀ hstart hreads hlost
  rw [hw] at hw'
  exact social_restore_of_recovers (Option.some.inj hw' ▸ hend) hsize _ _ _ _

/-- The texts of a few operations, and of the snapshots of a bridge without and with the friend
`bob`. -/
def bobSerde : Serde := .ofTable
  [(.addFriend "bob" "b:1" 1,
      "\x7b\"op\":\"add_friend\",\"uid\":\"bob\",\"addr\":\"b:1\",\"trust\":1\x7d"),
    (.updateTrust "bob" 1, "\x7b\"op\":\"update_trust\",\"uid\":\"bob\",\"trust\":1\x7d"),
    (.createChannel "x", "\x7b\"op\":\"create_channel\",\"name\":\"x\"\x7d")]
  [(⟨"me", [], []⟩,
      "\x7b\n  \"uid\": \"me\",\n  \"friends\": [],\n  \"channels\": []\n\x7d"),
    (⟨"me", [⟨"bob", "b:1", 1, some (edgeKeyToHex (.replicate 32 7))⟩], []⟩,
      "\x7b\n  \"uid\": \"me\",\n  \"friends\": [\n    \x7b\n      \"uid\": \"bob\",\n" ++
      "      \"addr\": \"b:1\",\n      \"trust\": 1,\n      \"edge_key_hex\": \"" ++
      edgeKeyToHex (.replicate 32 7) ++ "\"\n    \x7d\n  ],\n  \"channels\": []\n\x7d")]

/-- A new node, started at time 0 on an empty data directory. -/
def newNode : Bridge :=
  restore .const bobSerde (fun _ => .replicate 32 0) (fun _ => .replicate 32 0) "me"
    (WalStore.openAt {} 100 0)

theorem started_newNode : Started .const bobSerde "me" newNode :=
  .restored {} [] rfl (by simp) (by decide) _ _ 100 0

/-- A call at time `now`; new friends get the key `77…`. -/
def callAt (now : ℕ) (call : Call) : Input := ⟨call, .replicate 32 7, fun _ => ⟨now, now⟩⟩

/-- The checkpoint after one minute is taken at an operation that changes nothing. -/
theorem crash_recovery_bob :
    let b := newNode.run .const bobSerde [callAt 1 (.addFriend "bob" "b:1" 1),
      callAt 60000 (.updateTrust "bob" 1), callAt 60001 (.createChannel "x")]
    ∃ w, b.wal = some w ∧ w.dir.log.length ≤ maxWalBytes ∧
      (restore .const bobSerde (fun _ => .replicate 32 1) (fun _ => .replicate 32 1) "me"
        (WalStore.openAt w.dir 100 60002)).social = b.social := by
  intro b
  have hsize : ∃ w, b.wal = some w ∧ w.dir.log.length ≤ maxWalBytes := by
    refine ⟨b.wal.get (by decide +kernel), (Option.some_get _).symm, by decide +kernel⟩
  obtain ⟨w, hw, hlog⟩ := hsize
  exact ⟨w, hw, hlog, crash_recovery started_newNode _ (by decide +kernel) (by decide +kernel) hw
    hlog _ _ _ _⟩

/-- A friend added one minute after startup is lost by a crash. -/
theorem not_crash_recovery :
    ¬ ∀ (prim : Primitives) (serde : Serde) (uid : String) (b : Bridge),
      Started prim serde uid b → ∀ inputs : List Input,
      b.Along prim serde (ReadsBack serde) inputs →
      ∀ w, (b.run prim serde inputs).wal = some w → w.dir.log.length ≤ maxWalBytes →
      ∀ (freshSnap freshLog : ℕ → Bytes32) (checkpointOps now : ℕ),
        (restore prim serde freshSnap freshLog uid
          (WalStore.openAt w.dir checkpointOps now)).social = (b.run prim serde inputs).social := by
  intro hclaim
  have h := hclaim .const bobSerde "me" newNode started_newNode
    [callAt 60000 (.addFriend "bob" "b:1" 1)] (by decide +kernel)
    ((newNode.run .const bobSerde [callAt 60000 (.addFriend "bob" "b:1" 1)]).wal.get
      (by decide +kernel)) (Option.some_get _).symm (by decide +kernel)
    (fun _ => .replicate 32 0) (fun _ => .replicate 32 0) 100 60001
  exact absurd (congrFun (congrArg Social.friends h) "bob") (by decide +kernel)

end Bridge

end ChronoShift
