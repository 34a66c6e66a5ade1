import ChronoShift.DcNet.Recovery

/-!
# Edge keys after a crash

Replaying the log constructs the friends again, and the constructor draws a random edge key. Only
keys that were set are logged, so the key that `add_friend` draws is gone after a crash.

`KeyState` is what a log says of one friend's key. The key in memory and the replayed key are both
allowed by the state of the log, each with its own random generator (`KeyState.Allows`); they agree
for all generators when the state leaves no key to be drawn.

* `Bridge.allows_applyOps`, `Bridge.allows_run`: the keys after replay and after a run;
* `Bridge.edge_keys_survive_iff`: when every edge key survives.
-/

namespace ChronoShift

open ToMathlib

/-- What a log says of a friend's edge key. -/
inductive KeyState where
  /-- There is no such friend. -/
  | absent
  /-- The key was drawn when the friend was added. -/
  | drawn
  /-- The key was set. -/
  | set (key : Bytes32)
  deriving DecidableEq

namespace KeyState

/-- Set the key of a friend, if there is one. -/
def replace (key : Bytes32) : KeyState → KeyState
  -- the key of a stranger is not stored
  | absent => absent
  | _ => set key

/-- What a logged operation says of the key of `uid`. -/
def step (uid : String) (st : KeyState) : WalOperation → KeyState
  | .addFriend uid' _ _ => if uid = uid' then drawn else st
  | .removeFriend uid' => if uid = uid' then absent else st
  | .updateEdgeKey uid' keyHex =>
    match edgeKeyFromHex keyHex with
    | some key => if uid = uid' then st.replace key else st
    | none => st
  | _ => st

/-- What a call says of the key of `uid`. -/
def call (uid : String) (st : KeyState) : Bridge.Call → KeyState
  | .addFriend uid' _ _ => if uid = uid' then drawn else st
  | .removeFriend uid' => if uid = uid' then absent else st
  | .setEdgeKey uid' key => if uid = uid' then st.replace key else st
  | .importEdgeKey uid' hex =>
    match edgeKeyFromHex hex with
    | some key => if uid = uid' then st.replace key else st
    | none => st
  | _ => st

/-- The keys a friend may have, when the keys with `P` are drawn. -/
def Allows (P : Bytes32 → Prop) : KeyState → Option Bytes32 → Prop
  | absent, key => key = none
  | drawn, key => ∃ k, P k ∧ key = some k
  | set k, key => key = some k

/-- A key that is set is not a drawn one. -/
theorem replace_ne_drawn (key : Bytes32) (st : KeyState) : st.replace key ≠ drawn := by
  cases st <;> simp [replace]

/-- Only a friend has a key to replace. -/
theorem replace_eq_absent (key : Bytes32) (st : KeyState) :
    st.replace key = absent ↔ st = absent := by
  cases st <;> simp [replace]

/-- The key is there if and only if the friend is. -/
theorem Allows.eq_absent_iff {P : Bytes32 → Prop} {st : KeyState} {key : Option Bytes32}
    (h : st.Allows P key) : st = absent ↔ key = none := by
  cases st with
  | absent => exact ⟨fun _ => h, fun _ => rfl⟩
  | drawn =>
    obtain ⟨k, -, rfl⟩ := h
    simp
  | set k =>
    rw [Allows] at h
    simp [h]

/-- Only a drawn key is left open. -/
theorem Allows.unique {P Q : Bytes32 → Prop} {st : KeyState} {key key' : Option Bytes32}
    (hst : st ≠ drawn) (h : st.Allows P key) (h' : st.Allows Q key') : key = key' := by
  cases st with
  | absent => exact Eq.trans h (Eq.symm h')
  | drawn => exact absurd rfl hst
  | set k => exact Eq.trans h (Eq.symm h')

/-- A friend that is there gets the key. -/
theorem Allows.replace {P : Bytes32 → Prop} {st : KeyState} {key : Option Bytes32}
    (h : st.Allows P key) (k : Bytes32) : (st.replace k).Allows P (key.map fun _ => k) := by
  cases st with
  | absent =>
    rw [Allows] at h
    simp [KeyState.replace, Allows, h]
  | drawn =>
    obtain ⟨k', -, rfl⟩ := h
    rfl
  | set k' =>
    rw [Allows] at h
    simp [KeyState.replace, Allows, h]

end KeyState

namespace Bridge

variable {prim : Primitives} {serde : Serde} {b : Bridge} {P : Bytes32 → Prop} {st : KeyState}
  {uid : String} {live : ℕ → Bytes32}

/-- The keys that a round uses are those of the friends. -/
theorem lookup_edgeKeyMap (b : Bridge) (uid : String) :
    b.edgeKeyMap.lookup uid = (b.friends.lookup uid).map F2fFriend.edgeKey :=
  HashMap.lookup_ofPairs_pairs b.friends (fun _ f => f.edgeKey) uid

/-- A new channel changes no friend. -/
theorem createChannelNoLog_friends (b : Bridge) (name : String) :
    (b.createChannelNoLog prim name).friends = b.friends := by
  unfold createChannelNoLog
  split <;> rfl

/-- Joins change no friend. -/
theorem joinChannelNoLog_friends (b : Bridge) (channel : String) (uids : List String) :
    (b.joinChannelNoLog channel uids).1.friends = b.friends := by
  induction uids generalizing b with
  | nil => rfl
  | cons uid uids ih =>
    rw [joinChannelNoLog]
    split
    next b' h =>
      obtain ⟨ch, group, f, -, -, -, -, -, -, rfl⟩ := joinOne_eq_some h
      exact ih _
    next => exact ih b

/-- A replayed operation keeps the key allowed. -/
theorem allows_applyOpNoLog (h : st.Allows P (b.edgeKeyMap.lookup uid)) {fresh : Bytes32}
    (hfresh : P fresh) (op : WalOperation) :
    (st.step uid op).Allows P ((b.applyOpNoLog prim fresh op).edgeKeyMap.lookup uid) := by
  rw [lookup_edgeKeyMap] at h ⊢
  cases op with
  | addFriend uid' addr trust =>
    simp only [applyOpNoLog, KeyState.step, HashMap.lookup_insert_ite]
    split
    · exact ⟨fresh, hfresh, rfl⟩
    · exact h
  | removeFriend uid' =>
    simp only [applyOpNoLog, KeyState.step, HashMap.lookup_erase_ite]
    split
    · rfl
    · exact h
  | updateTrust uid' trust =>
    simp only [applyOpNoLog, KeyState.step, HashMap.lookup_modify]
    split
    · simpa [Function.comp_def] using h
    · exact h
  | updateEdgeKey uid' keyHex =>
    simp only [applyOpNoLog, KeyState.step]
    -- a text that is no key is ignored
    cases edgeKeyFromHex keyHex with
    | none => exact h
    | some key =>
      simp only [HashMap.lookup_modify]
      split
      · simpa [Function.comp_def] using h.replace key
      · exact h
  | createChannel name =>
    rw [applyOpNoLog, createChannelNoLog_friends]
    exact h
  | joinChannel channel uid' =>
    rw [applyOpNoLog, joinChannelNoLog_friends]
    exact h
  | leaveChannel channel uid' =>
    rw [applyOpNoLog]
    split_ifs <;> exact h
  | setUid | createNetwork | addMember | removeMember | sendMessage => exact h

/-- Replaying operations leads to a key that they allow. -/
theorem allows_applyOps {fresh : ℕ → Bytes32} (hfresh : ∀ i, P (fresh i))
    (h : st.Allows P (b.edgeKeyMap.lookup uid)) (ops : List WalOperation) :
    (ops.foldl (KeyState.step uid) st).Allows P
      ((b.applyOps prim fresh ops).edgeKeyMap.lookup uid) := by
  induction ops generalizing b st fresh with
  | nil => exact h
  | cons op ops ih =>
    exact ih (fun i => hfresh (i + 1)) (allows_applyOpNoLog h (hfresh 0) op)

/-- The entries of a call say of a key what the call does. -/
theorem foldl_step_entries (h : st.Allows P (b.edgeKeyMap.lookup uid)) (call : Call) :
    (b.entries call).foldl (KeyState.step uid) st = st.call uid call := by
  rw [lookup_edgeKeyMap] at h
  have hset (uid' : String) (key : Bytes32) :
      (if uid' ∈ b.friends then [WalOperation.updateEdgeKey uid' (edgeKeyToHex key)]
        else []).foldl (KeyState.step uid) st = if uid = uid' then st.replace key else st := by
    by_cases hmem : uid' ∈ b.friends
    · simp [hmem, KeyState.step]
    · rw [if_neg hmem]
      split
      next huid =>
        -- the uid is no friend, so setting its key does nothing
        have hnone : st = .absent := h.eq_absent_iff.mpr (by
          rw [huid, AList.lookup_eq_none.mpr hmem]
          rfl)
        rw [hnone]
        rfl
      next => rfl
  cases call with
  | setEdgeKey uid' key => exact hset uid' key
  | importEdgeKey uid' hex =>
    simp only [entries, KeyState.call]
    cases edgeKeyFromHex hex with
    | none => rfl
    | some key => exact hset uid' key
  | createChannel name =>
    simp only [entries, KeyState.call]
    split <;> rfl
  | joinChannel channel uids =>
    simp only [entries, KeyState.call, List.foldl_map]
    exact List.foldl_fixed _
  | _ => rfl

/-- A run leads to a key that its entries allow, and these say what the calls do. -/
theorem allows_run (h : st.Allows P (b.edgeKeyMap.lookup uid)) {inputs : List Input}
    (hfresh : ∀ i ∈ inputs, P i.fresh) :
    (inputs.foldl (fun st i => st.call uid i.call) st).Allows P
        ((b.run prim serde inputs).edgeKeyMap.lookup uid) ∧
      (b.logged prim serde inputs).foldl (KeyState.step uid) st =
        inputs.foldl (fun st i => st.call uid i.call) st := by
  induction inputs generalizing b st with
  | nil => exact ⟨h, rfl⟩
  | cons i inputs ih =>
    -- a call acts on the memory like its own entries, so both are read off the entries
    have hstep : (st.call uid i.call).Allows P ((b.apply prim serde i).edgeKeyMap.lookup uid) := by
      rw [← foldl_step_entries h, apply_eq]
      exact allows_applyOps (fun _ => hfresh i List.mem_cons_self) h _
    have hrest := ih hstep fun i' hi' => hfresh i' (List.mem_cons_of_mem i hi')
    refine ⟨hrest.1, ?_⟩
    rw [logged, List.foldl_append, foldl_step_entries h]
    exact hrest.2

/-! ## Which keys are left to be drawn -/

/-- The call adds the friend `uid`. -/
def Call.Adds (uid : String) : Call → Prop
  | .addFriend uid' _ _ => uid = uid'
  | _ => False

/-- The call removes the friend `uid`. -/
def Call.Removes (uid : String) : Call → Prop
  | .removeFriend uid' => uid = uid'
  | _ => False

/-- The call adds or removes the friend `uid`, or sets its key. -/
def Call.Touches (uid : String) : Call → Prop
  | .addFriend uid' _ _ | .removeFriend uid' | .setEdgeKey uid' _ => uid = uid'
  | .importEdgeKey uid' hex => uid = uid' ∧ edgeKeyFromHex hex ≠ none
  | _ => False

/-- Every call that adds `uid` is followed by one with `q`. -/
def Followed (uid : String) (q : Call → Prop) : List Call → Prop
  | [] => True
  | call :: calls => (call.Adds uid → ∃ call' ∈ calls, q call') ∧ Followed uid q calls

/-- A property of the state that holds right after the friend is added, and until a call with `q`:
it holds at the end unless every call that adds the friend is followed by one with `q`. -/
theorem foldl_iff_followed {σ : Type} {step : σ → Call → σ} {R : σ → Prop} {q : Call → Prop}
    (h : ∀ st call, R (step st call) ↔ call.Adds uid ∨ (¬ q call ∧ R st)) (st : σ)
    (calls : List Call) :
    R (calls.foldl step st) ↔ (R st ∧ ∀ call ∈ calls, ¬ q call) ∨ ¬ Followed uid q calls := by
  induction calls generalizing st with
  | nil => simp [Followed]
  | cons call calls ih =>
    have hnone : (∀ call ∈ calls, ¬ q call) ↔ ¬ ∃ call ∈ calls, q call := by simp
    rw [List.foldl_cons, ih, h, Followed, List.forall_mem_cons, hnone]
    -- `later` is whether a call with `q` is still to come
    generalize (∃ call ∈ calls, q call) = later
    tauto

/-- A drawn key comes with an addition, and stays while it is not touched. -/
theorem call_eq_drawn_iff (st : KeyState) (uid : String) (call : Call) :
    st.call uid call = .drawn ↔ call.Adds uid ∨ (¬ call.Touches uid ∧ st = .drawn) := by
  cases call with
  | addFriend uid' addr trust =>
    by_cases h : uid = uid' <;> simp [KeyState.call, Call.Adds, Call.Touches, h]
  | removeFriend uid' =>
    by_cases h : uid = uid' <;> simp [KeyState.call, Call.Adds, Call.Touches, h]
  | setEdgeKey uid' key =>
    by_cases h : uid = uid' <;>
      simp [KeyState.call, Call.Adds, Call.Touches, h, KeyState.replace_ne_drawn]
  | importEdgeKey uid' hex =>
    cases hkey : edgeKeyFromHex hex with
    | none => simp [KeyState.call, Call.Adds, Call.Touches, hkey]
    | some key =>
      by_cases h : uid = uid' <;>
        simp [KeyState.call, Call.Adds, Call.Touches, hkey, h, KeyState.replace_ne_drawn]
  | _ => simp [KeyState.call, Call.Adds, Call.Touches]

/-- A friend comes with an addition, and stays while it is not removed. -/
theorem call_ne_absent_iff (st : KeyState) (uid : String) (call : Call) :
    st.call uid call ≠ .absent ↔ call.Adds uid ∨ (¬ call.Removes uid ∧ st ≠ .absent) := by
  cases call with
  | addFriend uid' addr trust =>
    by_cases h : uid = uid' <;> simp [KeyState.call, Call.Adds, Call.Removes, h]
  | removeFriend uid' =>
    by_cases h : uid = uid' <;> simp [KeyState.call, Call.Adds, Call.Removes, h]
  | setEdgeKey uid' key =>
    by_cases h : uid = uid' <;>
      simp [KeyState.call, Call.Adds, Call.Removes, h, KeyState.replace_eq_absent]
  | importEdgeKey uid' hex =>
    cases hkey : edgeKeyFromHex hex with
    | none => simp [KeyState.call, Call.Adds, Call.Removes, hkey]
    | some key =>
      by_cases h : uid = uid' <;>
        simp [KeyState.call, Call.Adds, Call.Removes, hkey, h, KeyState.replace_eq_absent]
  | _ => simp [KeyState.call, Call.Adds, Call.Removes]

/-! ## A log without checkpoints -/

/-- The call takes no checkpoint. -/
def TakesNoCheckpoint (serde : Serde) (b : Bridge) (i : Input) : Prop :=
  ∀ w ∈ b.wal, w.AtCheckpoints serde b.snapshot (fun _ => False) [] i.tick (b.entries i.call)

instance (serde : Serde) (b : Bridge) : DecidablePred (b.TakesNoCheckpoint serde) :=
  fun _ => inferInstanceAs (Decidable (∀ w, w ∈ b.wal → _))

/-- Without a checkpoint, what is logged is appended. -/
theorem log_logAll {snap : SocialSnapshot} {w : WalStore} {tick : ℕ → Tick}
    {before ops : List WalOperation}
    (h : w.AtCheckpoints serde snap (fun _ => False) before tick ops) :
    ∃ entries : List (ℕ × WalOperation),
      (w.logAll serde snap tick ops).dir.log = w.dir.log ++ logOf serde entries ∧
        entries.map Prod.snd = ops := by
  induction ops generalizing w tick before with
  | nil => exact ⟨[], by simp [WalStore.logAll, logOf], rfl⟩
  | cons op ops ih =>
    obtain ⟨entries, hlog, hentries⟩ := ih h.2
    refine ⟨((tick 0).timestamp, op) :: entries, ?_, by simp [hentries]⟩
    have hwal : w.logWal serde snap (tick 0) op = w.append serde (tick 0).timestamp op :=
      if_neg fun hdue => h.1 hdue
    rw [WalStore.logAll, hlog, hwal]
    simp [WalStore.append, logOf]

/-- Without checkpoints, the log after a run holds what the run has logged. -/
theorem log_run {w : WalStore} (hw : b.wal = some w) {inputs : List Input}
    (h : b.Along prim serde (TakesNoCheckpoint serde) inputs) :
    ∃ (w' : WalStore) (entries : List (ℕ × WalOperation)),
      (b.run prim serde inputs).wal = some w' ∧
        w'.dir.log = w.dir.log ++ logOf serde entries ∧
        entries.map Prod.snd = b.logged prim serde inputs := by
  induction inputs generalizing b w with
  | nil => exact ⟨w, [], hw, by simp [logOf], rfl⟩
  | cons i inputs ih =>
    obtain ⟨entries, hlog, hentries⟩ := log_logAll (h.1 w hw)
    have hw' : (b.apply prim serde i).wal =
        some (w.logAll serde b.snapshot i.tick (b.entries i.call)) := by
      rw [apply_eq, hw]
      rfl
    obtain ⟨w', entries', hrun, hlog', hentries'⟩ := ih hw' h.2
    refine ⟨w', entries ++ entries', hrun, ?_, ?_⟩
    · rw [hlog', hlog]
      simp [logOf]
    · rw [List.map_append, hentries, hentries', logged]

/-! ## Survival -/

/-- The calls, where the `i`-th one draws the key `live i`. -/
def withKeys (live : ℕ → Bytes32) : List (Call × (ℕ → Tick)) → List Input
  | [] => []
  | (call, tick) :: steps => ⟨call, live 0, tick⟩ :: withKeys (fun i => live (i + 1)) steps

/-- What becomes of a key does not depend on the keys that are drawn. -/
theorem foldl_withKeys (live : ℕ → Bytes32) (steps : List (Call × (ℕ → Tick))) (st : KeyState) :
    (withKeys live steps).foldl (fun st i => st.call uid i.call) st =
      (steps.map Prod.fst).foldl (KeyState.call uid) st := by
  induction steps generalizing live st with
  | nil => rfl
  | cons step steps ih => exact ih _ _

/-- The drawn keys are those that are given. -/
theorem fresh_withKeys (hlive : ∀ i, P (live i)) (steps : List (Call × (ℕ → Tick))) :
    ∀ i ∈ withKeys live steps, P i.fresh := by
  induction steps generalizing live with
  | nil => simp [withKeys]
  | cons step steps ih =>
    intro i hi
    rcases List.mem_cons.mp hi with rfl | hi
    · exact hlive 0
    · exact ih (fun i => hlive (i + 1)) i hi

/-- A new bridge with an empty log. -/
def newWithWal (uid : String) (checkpointOps now : ℕ) : Bridge :=
  (new uid).attachWal (WalStore.openAt {} checkpointOps now)

/-- Every addition is followed by a call that touches the key: what the state of the key says. -/
theorem followed_touches_iff (uid : String) (calls : List Call) :
    Followed uid (Call.Touches uid) calls ↔
      calls.foldl (KeyState.call uid) .absent ≠ .drawn := by
  rw [Ne, foldl_iff_followed (R := (· = KeyState.drawn)) (call_eq_drawn_iff · uid ·)]
  simp

/-- Every addition is followed by a removal: what the state of the key says. -/
theorem followed_removes_iff (uid : String) (calls : List Call) :
    Followed uid (Call.Removes uid) calls ↔
      calls.foldl (KeyState.call uid) .absent = .absent := by
  have h := foldl_iff_followed (R := (· ≠ .absent)) (call_ne_absent_iff · uid ·) .absent calls
  rw [← not_iff_not, ← Ne, h]
  simp

/-- The log is replayed in full, or not at all when it is too large. -/
theorem replay_newWithWal {checkpointOps now : ℕ} {inputs : List Input} {w : WalStore}
    (hwrites : ∀ op ∈ (newWithWal uid checkpointOps now).logged prim serde inputs, serde.Writes op)
    (hcheckpoint : (newWithWal uid checkpointOps now).Along prim serde (TakesNoCheckpoint serde)
      inputs) (hw : ((newWithWal uid checkpointOps now).run prim serde inputs).wal = some w) :
    w.replay serde =
      if w.dir.log.length ≤ maxWalBytes then
        (newWithWal uid checkpointOps now).logged prim serde inputs
      else [] := by
  obtain ⟨w', entries, hw', hlog, hentries⟩ := log_run rfl hcheckpoint
  obtain rfl : w' = w := Option.some.inj (hw'.symm.trans hw)
  replace hlog : w'.dir.log = logOf serde entries := hlog
  split
  next hsize =>
    rw [WalStore.replay, hlog, ← hentries]
    refine replayLog_logOf (fun e he => hwrites e.2 ?_) (hlog ▸ hsize)
    rw [← hentries]
    exact List.mem_map_of_mem he
  next hsize => rw [WalStore.replay, replayLog, if_pos (not_le.mp hsize)]

section Drawn

variable (prim serde) {again : ℕ → Bytes32} (checkpointOps now : ℕ)
  (steps : List (Call × (ℕ → Tick)))

/-- The key in memory after a run, and the entries of the run, in terms of the calls. -/
theorem allows_withKeys (hlive : ∀ i, P (live i)) (friend : String) :
    ((steps.map Prod.fst).foldl (KeyState.call friend) .absent).Allows P
        (((newWithWal uid checkpointOps now).run prim serde
          (withKeys live steps)).edgeKeyMap.lookup friend) ∧
      ((newWithWal uid checkpointOps now).logged prim serde (withKeys live steps)).foldl
          (KeyState.step friend) .absent =
        (steps.map Prod.fst).foldl (KeyState.call friend) .absent := by
  have habsent : KeyState.absent.Allows P
      ((newWithWal uid checkpointOps now).edgeKeyMap.lookup friend) := rfl
  have h := @allows_run prim serde _ P .absent friend habsent (withKeys live steps)
    (fresh_withKeys hlive steps)
  simpa only [foldl_withKeys] using h

/-- The key after the entries of a run have been replayed into a new bridge. -/
theorem allows_replayed {uid' : String} (hagain : ∀ i, P (again i)) (friend : String) :
    ((steps.map Prod.fst).foldl (KeyState.call friend) .absent).Allows P
      (((new uid').applyOps prim again ((newWithWal uid checkpointOps now).logged prim serde
        (withKeys live steps))).edgeKeyMap.lookup friend) := by
  -- which keys the run drew does not matter here
  have hlogged := (@allows_withKeys prim serde (fun _ => True) uid live checkpointOps now steps
    (fun _ => trivial) friend).2
  rw [← hlogged]
  have habsent : KeyState.absent.Allows P ((new uid').edgeKeyMap.lookup friend) := rfl
  exact allows_applyOps hagain habsent _

end Drawn

/-- When every edge key survives a crash, whatever keys are drawn in the run and in the replay:
every friend that is added gets its key set (or is removed) afterwards, and the log is small enough
to be replayed; or no friend is left. -/
theorem edge_keys_survive_iff (prim : Primitives) (serde : Serde) (uid uid' : String)
    (checkpointOps now : ℕ) (steps : List (Call × (ℕ → Tick)))
    (hwrites : ∀ live, ∀ op ∈ (newWithWal uid checkpointOps now).logged prim serde
      (withKeys live steps), serde.Writes op)
    (hcheckpoint : ∀ live, (newWithWal uid checkpointOps now).Along prim serde
      (TakesNoCheckpoint serde) (withKeys live steps)) :
    (∀ (live again : ℕ → Bytes32) (w : WalStore),
        ((newWithWal uid checkpointOps now).run prim serde (withKeys live steps)).wal = some w →
        ∀ friend, ((new uid').applyOps prim again (w.replay serde)).edgeKeyMap.lookup friend =
          ((newWithWal uid checkpointOps now).run prim serde
            (withKeys live steps)).edgeKeyMap.lookup friend) ↔
      ((∀ friend, Followed friend (Call.Touches friend) (steps.map Prod.fst)) ∧
        ∀ live w, ((newWithWal uid checkpointOps now).run prim serde (withKeys live steps)).wal =
          some w → w.dir.log.length ≤ maxWalBytes) ∨
      ∀ friend, Followed friend (Call.Removes friend) (steps.map Prod.fst) := by
  simp only [followed_touches_iff, followed_removes_iff]
  -- the key in memory and the replayed key, in terms of the calls
  have hlive (P : Bytes32 → Prop) (live : ℕ → Bytes32) (h : ∀ i, P (live i)) (friend : String) :=
    (@allows_withKeys prim serde P uid live checkpointOps now steps h friend).1
  have hagain (P : Bytes32 → Prop) (live again : ℕ → Bytes32) (h : ∀ i, P (again i))
      (friend : String) :=
    @allows_replayed prim serde P uid live again checkpointOps now steps uid' h friend
  constructor
  · intro h
    by_cases hsize : ∀ live w, ((newWithWal uid checkpointOps now).run prim serde
        (withKeys live steps)).wal = some w → w.dir.log.length ≤ maxWalBytes
    · refine Or.inl ⟨fun friend hdrawn => ?_, hsize⟩
      -- a drawn key is not the one that is drawn again
      obtain ⟨w, -, hw, -, -⟩ := log_run rfl (hcheckpoint fun _ => .replicate 32 0)
      have heq := h (fun _ => .replicate 32 0) (fun _ => .replicate 32 1) w hw friend
      rw [replay_newWithWal (hwrites _) (hcheckpoint _) hw, if_pos (hsize _ w hw)] at heq
      have h₀ := hlive (· = .replicate 32 0) (fun _ => .replicate 32 0) (fun _ => rfl) friend
      have h₁ := hagain (· = .replicate 32 1) (fun _ => .replicate 32 0) (fun _ => .replicate 32 1)
        (fun _ => rfl) friend
      rw [hdrawn] at h₀ h₁
      obtain ⟨k₀, rfl, h₀⟩ := h₀
      obtain ⟨k₁, rfl, h₁⟩ := h₁
      rw [h₀, h₁] at heq
      exact absurd (Option.some.inj heq) (by decide)
    · refine Or.inr fun friend => ?_
      -- nothing is replayed, so nothing was there
      obtain ⟨live, hsize⟩ := not_forall.mp hsize
      obtain ⟨w, hsize⟩ := not_forall.mp hsize
      obtain ⟨hw, hsize⟩ := Classical.not_imp.mp hsize
      have heq := h live live w hw friend
      rw [replay_newWithWal (hwrites _) (hcheckpoint _) hw, if_neg hsize] at heq
      exact (hlive (fun _ => True) live (fun _ => trivial) friend).eq_absent_iff.mpr heq.symm
  · intro h live again w hw friend
    have hlive' := hlive (fun _ => True) live (fun _ => trivial) friend
    have hagain' := hagain (fun _ => True) live again (fun _ => trivial) friend
    rw [replay_newWithWal (hwrites _) (hcheckpoint _) hw]
    rcases h with ⟨hset, hsize⟩ | habsent
    -- no key is left to be drawn, so memory and replay are allowed one key only
    · rw [if_pos (hsize live w hw)]
      exact KeyState.Allows.unique (hset friend) hagain' hlive'
    · rw [hlive'.eq_absent_iff.mp (habsent friend)]
      split
      · exact hagain'.eq_absent_iff.mp (habsent friend)
      · rfl

/-- The texts of adding the friend `bob` and of setting its key. -/
def keySerde : Serde := .ofTable
  [(.addFriend "bob" "b:1" 1,
      "\x7b\"op\":\"add_friend\",\"uid\":\"bob\",\"addr\":\"b:1\",\"trust\":1\x7d"),
    (.updateEdgeKey "bob" (edgeKeyToHex (.replicate 32 9)),
      "\x7b\"op\":\"update_edge_key\",\"uid\":\"bob\",\"key_hex\":\"" ++
        edgeKeyToHex (.replicate 32 9) ++ "\"\x7d")] []

/-- Add `bob` and set its key, within the first minute. -/
def addAndSet : List (Call × (ℕ → Tick)) :=
  [(.addFriend "bob" "b:1" 1, fun _ => ⟨1, 1⟩),
    (.setEdgeKey "bob" (.replicate 32 9), fun _ => ⟨2, 2⟩)]

/-- The two calls log an entry each. -/
theorem logged_addAndSet (live : ℕ → Bytes32) :
    (newWithWal "me" 100 0).logged .const keySerde (withKeys live addAndSet) =
      [.addFriend "bob" "b:1" 1, .updateEdgeKey "bob" (edgeKeyToHex (.replicate 32 9))] := rfl

/-- Two entries are too few for a checkpoint. -/
theorem takesNoCheckpoint_addAndSet (live : ℕ → Bytes32) :
    (newWithWal "me" 100 0).Along .const keySerde (TakesNoCheckpoint keySerde)
      (withKeys live addAndSet) :=
  of_decide_eq_true rfl

/-- A key that is set after the friend was added survives. -/
theorem edge_keys_survive_iff_set :
    Followed "bob" (Call.Touches "bob") (addAndSet.map Prod.fst) ∧
      ∀ (live again : ℕ → Bytes32) (w : WalStore),
        ((newWithWal "me" 100 0).run .const keySerde (withKeys live addAndSet)).wal = some w →
        ∀ friend,
          ((new "me").applyOps .const again (w.replay keySerde)).edgeKeyMap.lookup friend =
            ((newWithWal "me" 100 0).run .const keySerde
              (withKeys live addAndSet)).edgeKeyMap.lookup friend := by
  have hfollowed (friend : String) :
      Followed friend (Call.Touches friend) (addAndSet.map Prod.fst) :=
    ⟨fun hadds => ⟨_, List.mem_singleton_self _, hadds⟩, fun hadds => hadds.elim, trivial⟩
  refine ⟨hfollowed "bob", (edge_keys_survive_iff .const keySerde "me" "me" 100 0 addAndSet
    (fun live => ?_) takesNoCheckpoint_addAndSet).mpr (Or.inl ⟨hfollowed, fun live w hw => ?_⟩)⟩
  · rw [logged_addAndSet]
    decide +kernel
  · obtain rfl := Option.some.inj hw
    -- the length of the log does not depend on the keys that are drawn
    show (((WalStore.openAt {} 100 0).append keySerde 1 (.addFriend "bob" "b:1" 1)).append
      keySerde 2 (.updateEdgeKey "bob" (edgeKeyToHex (.replicate 32 9)))).dir.log.length ≤
        maxWalBytes
    decide +kernel

/-- The key that is drawn when a friend is added does not survive. -/
theorem not_edge_keys_survive :
    ¬ ∀ (prim : Primitives) (serde : Serde) (uid uid' : String) (checkpointOps now : ℕ)
      (steps : List (Call × (ℕ → Tick))),
      (∀ live, ∀ op ∈ (newWithWal uid checkpointOps now).logged prim serde (withKeys live steps),
        serde.Writes op) →
      (∀ live, (newWithWal uid checkpointOps now).Along prim serde (TakesNoCheckpoint serde)
        (withKeys live steps)) →
      ∀ (live again : ℕ → Bytes32) (w : WalStore),
        ((newWithWal uid checkpointOps now).run prim serde (withKeys live steps)).wal = some w →
        ∀ friend, ((new uid').applyOps prim again (w.replay serde)).edgeKeyMap.lookup friend =
          ((newWithWal uid checkpointOps now).run prim serde
            (withKeys live steps)).edgeKeyMap.lookup friend := by
  intro hclaim
  have h := hclaim .const keySerde "me" "me" 100 0 [(.addFriend "bob" "b:1" 1, fun _ => ⟨1, 1⟩)]
    (fun live op hop => by
      obtain rfl := List.mem_singleton.mp hop
      decide +kernel)
    (fun live => of_decide_eq_true rfl) (fun _ => .replicate 32 7) (fun _ => .replicate 32 1) _ rfl
    "bob"
  exact absurd h (by decide +kernel)

end Bridge

end ChronoShift
