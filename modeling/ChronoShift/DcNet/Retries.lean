import ChronoShift.DcNet.QueuedMessage

/-!
# How often a message is retried

A retry is an `initiate`, and an `initiate` that succeeds starts the retry count again. So the limit
is never reached: a message is retried whenever one of its rounds fails, and it fails when it
expires, when it completes without a text, and when the round completes that it has lost a conflict
against.

* `RoundDriver.reinitiations`: the rounds that the calls of a run announce;
* `RoundDriver.failures`: the rounds of the message that fail in the run;
* `RoundDriver.reinitiations_eq_failures`: each of these failures is answered with one retry.
-/

namespace ChronoShift

open ToMathlib

/-- The rounds announced among outgoing messages. -/
def startsOf (out : Outgoing) : Finset ℕ :=
  (out.filterMap fun
    | (_, .dcRoundStart _ roundId _ _ _ _) => some roundId
    | _ => none).toFinset

namespace RoundDriver

variable {prim : Primitives} {env : CallEnv} {ctx : RoundContext} {d d' : RoundDriver}

instance (ctx : RoundContext) (participants : List String) :
    Decidable (CanTakePart ctx participants) := by
  unfold CanTakePart
  infer_instance

/-- The round of the queued message is one of the expired ones, and we can take part among its
participants. -/
def ExpiryFails (ctx : RoundContext) (d : RoundDriver) (expired : List ℕ) : Prop :=
  d.pendingMessage.isSome = true ∧ ∃ id ∈ expired, d.pendingRoundId = some id ∧
    ∃ c ∈ d.collectors.lookup id, CanTakePart ctx c.participants

instance (ctx : RoundContext) (d : RoundDriver) (expired : List ℕ) :
    Decidable (d.ExpiryFails ctx expired) := by
  unfold ExpiryFails
  infer_instance

/-- The share completes the round of the queued message without a text, or the round that the
message has lost against, among participants we can take part with. -/
def ShareFails (prim : Primitives) (env : CallEnv) (ctx : RoundContext) (d : RoundDriver)
    (channel : String) (roundId : ℕ) (peerUid : String) (share : Bytes) : Prop :=
  d.pendingMessage.isSome = true ∧ ∃ c ∈ d.collectors.lookup roundId,
    CanTakePart ctx c.participants ∧ ∃ c₁ ∈ (c.submitShare peerUid share).toOption,
      let c₂ := (broadcastOwnShare env d channel roundId c₁ ctx).2.1
      c₂.isComplete = true ∧
        (d.pendingRoundId = some roundId ∧ extraction prim d channel roundId c₂ = [] ∨
          d.retryAfterPeer = some roundId)

instance (prim : Primitives) (env : CallEnv) (ctx : RoundContext) (d : RoundDriver)
    (channel : String) (roundId : ℕ) (peerUid : String) (share : Bytes) :
    Decidable (d.ShareFails prim env ctx channel roundId peerUid share) := by
  unfold ShareFails
  infer_instance

/-- How many rounds of the queued message fail with a message: an admitted share can make one
fail. -/
def messageFailures (prim : Primitives) (env : CallEnv) (ctx : RoundContext) (d : RoundDriver) :
    PeerMessage → ℕ
  | .dcRoundShare channel roundId peerUid share signature =>
    if shareAdmitted prim ctx channel roundId peerUid share signature = true ∧
      d.ShareFails prim env ctx channel roundId peerUid share then 1 else 0
  | _ => 0

/-- How many rounds of the queued message fail in a call. -/
def failuresOf (prim : Primitives) (d : RoundDriver) (input : DriverInput) : ℕ :=
  match input.call with
  | .handle msg =>
    (if d.ExpiryFails input.ctx (d.expiredRounds input.env) then 1 else 0) +
      messageFailures prim input.env input.ctx (dropExpired prim input.env input.ctx d) msg
  | _ => 0

/-- How many rounds of the queued message fail in a run. -/
def failures (prim : Primitives) : RoundDriver → List DriverInput → ℕ
  | _, [] => 0
  | d, input :: inputs => d.failuresOf prim input + failures prim (d.call prim input).1 inputs

/-- How many rounds the calls of a run announce. -/
def reinitiations (prim : Primitives) (d : RoundDriver) (inputs : List DriverInput) : ℕ :=
  ((d.run prim inputs).2.map fun action => (startsOf action.outgoing).card).sum

/-! ## Announcements -/

theorem mem_startsOf {out : Outgoing} {roundId : ℕ} :
    roundId ∈ startsOf out ↔ ∃ target channel leaderId participants deadlineSecs payloadLen,
      (target, PeerMessage.dcRoundStart channel roundId leaderId participants deadlineSecs
        payloadLen) ∈ out := by
  rw [startsOf, List.mem_toFinset, List.mem_filterMap]
  constructor
  · rintro ⟨⟨target, msg⟩, hmem, heq⟩
    cases msg <;> simp only [Option.some.injEq, reduceCtorEq] at heq
    obtain rfl := heq
    exact ⟨_, _, _, _, _, _, hmem⟩
  · rintro ⟨target, channel, leaderId, participants, deadlineSecs, payloadLen, hmem⟩
    exact ⟨_, hmem, rfl⟩

theorem startsOf_append (out out' : Outgoing) :
    startsOf (out ++ out') = startsOf out ∪ startsOf out' := by
  simp [startsOf, List.filterMap_append, List.toFinset_append]

@[simp]
theorem startsOf_nil : startsOf [] = ∅ := rfl

theorem startsOf_toOthers_share (myUid : String) (participants : List String)
    (channel uid : String) (roundId : ℕ) (payload signature : Bytes) :
    startsOf (toOthers myUid participants (.dcRoundShare channel roundId uid payload signature)) =
      ∅ := by
  rw [Finset.eq_empty_iff_forall_notMem]
  intro id hid
  obtain ⟨_, _, _, _, _, _, hmem⟩ := mem_startsOf.mp hid
  simpa using (mem_toOthers.mp hmem).2.2

/-- A new round is announced to somebody. -/
theorem startsOf_announcement (d : RoundDriver) (channel : String) {participants : List String}
    (hpart : CanTakePart ctx participants) (hnodup : participants.Nodup) :
    startsOf (d.announcement ctx channel participants) = {d.tracker.currentRoundId + 1} := by
  obtain ⟨other, hother, hne⟩ := exists_other hnodup hpart.1 ctx.myUid
  ext id
  rw [mem_startsOf, Finset.mem_singleton]
  constructor
  · rintro ⟨_, _, _, _, _, _, hmem⟩
    have heq := (mem_toOthers.mp hmem).2.2
    simp only [PeerMessage.dcRoundStart.injEq] at heq
    exact heq.2.1
  · rintro rfl
    exact ⟨other, _, _, _, _, _, mem_toOthers.mpr ⟨hother, hne, rfl⟩⟩

/-! ## The counter is ahead of every round -/

/-- No round of the driver is ahead of its counter, and the message does not wait twice for one
round. -/
structure Ordered (d : RoundDriver) : Prop where
  collectors : ∀ id c, d.collectors.lookup id = some c →
    id ≤ d.tracker.currentRoundId ∧ c.participants.Nodup
  pending : ∀ id, d.pendingRoundId = some id → id ≤ d.tracker.currentRoundId
  peer : ∀ id, d.retryAfterPeer = some id →
    id ≤ d.tracker.currentRoundId ∧ d.pendingRoundId ≠ some id
  buffer : ∀ id ∈ startsOf d.pendingOutgoing, id ≤ d.tracker.currentRoundId

namespace Ordered

theorem new : RoundDriver.new.Ordered where
  collectors id c h := by simp [RoundDriver.new] at h
  pending id h := by simp [RoundDriver.new] at h
  peer id h := by simp [RoundDriver.new] at h
  buffer id h := by simp [RoundDriver.new] at h

/-- Moving the counter, and dropping collectors, rounds and buffered messages. -/
theorem of_le (h : d.Ordered) (hle : d.tracker.currentRoundId ≤ d'.tracker.currentRoundId)
    (hcollectors : ∀ id c, d'.collectors.lookup id = some c → d.collectors.lookup id = some c)
    (hpending : d'.pendingRoundId = d.pendingRoundId ∨ d'.pendingRoundId = none)
    (hpeer : d'.retryAfterPeer = d.retryAfterPeer ∨ d'.retryAfterPeer = none)
    (hbuffer : d'.pendingOutgoing = d.pendingOutgoing ∨ d'.pendingOutgoing = []) :
    d'.Ordered := by
  have hold : ∀ id, d'.pendingRoundId = some id → d.pendingRoundId = some id := by
    intro id hid
    obtain heq | hnone := hpending
    · exact heq ▸ hid
    · simp [hnone] at hid
  refine ⟨fun id c hc => ?_, fun id hid => ?_, fun id hid => ?_, fun id hid => ?_⟩
  · have hc := h.collectors id c (hcollectors id c hc)
    exact ⟨hc.1.trans hle, hc.2⟩
  · exact (h.pending id (hold id hid)).trans hle
  · obtain heq | hnone := hpeer
    · have hp := h.peer id (heq ▸ hid)
      exact ⟨hp.1.trans hle, fun hid' => hp.2 (hold id hid')⟩
    · simp [hnone] at hid
  · obtain heq | hnil := hbuffer
    · exact (h.buffer id (heq ▸ hid)).trans hle
    · simp [hnil] at hid

theorem storeCollector (h : d.Ordered) {id : ℕ} {c : RoundCollector}
    (hle : id ≤ d.tracker.currentRoundId) (hc : c.participants.Nodup) :
    (d.storeCollector id c).Ordered := by
  refine ⟨fun id' c' hc' => ?_, h.pending, h.peer, h.buffer⟩
  obtain ⟨rfl, rfl⟩ | hc' := lookup_storeCollector hc'
  · exact ⟨hle, hc⟩
  · exact h.collectors id' c' hc'

/-- A new round gets the next id, and so does its announcement. -/
theorem begun (h : d.Ordered) {channel text : String} {participants : List String}
    {share : Bytes} (hb : Begun prim env ctx d d' channel text participants share)
    {buffer : Outgoing}
    (hbuffer : ∀ id ∈ startsOf buffer, id ≤ d.tracker.currentRoundId + 1) :
    Ordered { d' with pendingOutgoing := buffer } := by
  rw [hb.state_eq]
  refine ⟨fun id c hc => ?_, fun id hid => ?_, fun id hid => ?_, hbuffer⟩
  · obtain ⟨rfl, rfl⟩ | hc := lookup_storeCollector (d := d) hc
    · exact ⟨le_refl _, List.nodup_dedup participants⟩
    · have hc := h.collectors id c hc
      exact ⟨Nat.le_succ_of_le hc.1, hc.2⟩
  · exact (Option.some.inj hid).ge
  · have hle := (h.peer id hid).1
    refine ⟨Nat.le_succ_of_le hle, fun hid' => ?_⟩
    have heq := Option.some.inj hid'
    omega

theorem retryPending (h : d.Ordered) (channel : String) (participants : List String) :
    (retryPending prim env d channel participants ctx).Ordered := by
  refine retryPending_induct h ?_ ?_ ?_ ?_
  · exact fun d hd => hd.of_le (le_refl _) (fun _ _ hc => hc) (Or.inl rfl) (Or.inl rfl) (Or.inl rfl)
  · exact fun d n hd =>
      hd.of_le (le_refl _) (fun _ _ hc => hc) (Or.inl rfl) (Or.inl rfl) (Or.inl rfl)
  · exact fun d hd =>
      hd.of_le (Nat.le_succ _) (fun _ _ hc => hc) (Or.inl rfl) (Or.inl rfl) (Or.inl rfl)
  · intro d d₁ msg share hd _ hb
    refine hd.begun hb fun id hid => ?_
    rw [startsOf_append, Finset.mem_union] at hid
    rcases hid with hid | hid
    · exact Nat.le_succ_of_le (hd.buffer id hid)
    · obtain ⟨_, _, _, _, _, _, hmem⟩ := mem_startsOf.mp hid
      have heq := (mem_toOthers.mp hmem).2.2
      simp only [PeerMessage.dcRoundStart.injEq] at heq
      exact heq.2.1.le

end Ordered

/-! ## A retry -/

/-- The retries since the last new round, and the rounds that can still cause one. -/
def retriesDue (d : RoundDriver) : ℕ :=
  d.retries + d.pendingRoundId.isSome.toNat + d.retryAfterPeer.isSome.toNat

/-- What holds in every run. A retry uses up a round that can cause it, and a new round resets the
retries, so the limit stays out of reach. -/
structure RetryInv (d : RoundDriver) : Prop where
  sound : d.Sound
  ordered : d.Ordered
  retries_le : d.retriesDue ≤ 2

/-- The number of announcements in the buffer. -/
def buffered (d : RoundDriver) : ℕ := (startsOf d.pendingOutgoing).card

/-- The limit is not reached when a retry is due. -/
theorem retries_lt_of_due (hdue : d.retriesDue ≤ 1) : d.retries < maxConflictRetries := by
  unfold retriesDue at hdue
  unfold maxConflictRetries
  omega

/-- A new round is started by somebody who can take part in it. -/
theorem Begun.canTakePart {channel text : String} {participants : List String} {share : Bytes}
    (hb : Begun prim env ctx d d' channel text participants share) :
    CanTakePart ctx participants := by
  refine ⟨hb.two_le, hb.mem, ?_⟩
  have hsome := Option.isSome_of_eq_some hb.share_eq
  exact (computeXorShareSecure_isSome.mp hsome).2.2.1

section Retry

variable {channel : String} {participants : List String}

/-- A retry is made by a driver whose failed round is used up. -/
theorem RetryInv.retryPending (hs : d.Sound) (ho : d.Ordered) (hdue : d.retriesDue ≤ 1) :
    (retryPending prim env d channel participants ctx).RetryInv := by
  refine ⟨hs.retryPending _ _, ho.retryPending _ _, ?_⟩
  unfold retriesDue at hdue ⊢
  rcases retryPending_cases channel participants rfl with
    heq | heq | heq | ⟨msg, share, d₁, -, hb, heq⟩
  · rw [heq]
    exact Nat.le_succ_of_le hdue
  · rw [heq]
    dsimp only
    omega
  · rw [heq]
    simp only [advance]
    omega
  · rw [heq, hb.state_eq]
    simp only [beginRound, advance, Option.isSome_some, Bool.toNat_true]
    omega

/-- A retry announces one round if there is a message and we can take part, and none otherwise. -/
theorem buffered_retryPending (hs : d.Sound) (ho : d.Ordered) (hdue : d.retriesDue ≤ 1)
    (hnodup : participants.Nodup) :
    (retryPending prim env d channel participants ctx).buffered = d.buffered +
      if d.pendingMessage.isSome = true ∧ CanTakePart ctx participants then 1 else 0 := by
  unfold buffered
  split_ifs with hcan
  · obtain ⟨d₁, text, share, -, heq⟩ := @retryPending_begun prim env ctx d hs channel participants
      (retries_lt_of_due hdue) hcan.1 hcan.2
    rw [heq, startsOf_append, startsOf_announcement d channel hcan.2 hnodup,
      Finset.card_union_of_disjoint, Finset.card_singleton]
    -- the announced round is ahead of everything in the buffer
    rw [Finset.disjoint_singleton_right]
    intro hmem
    have hle := ho.buffer _ hmem
    omega
  · generalize hd' : RoundDriver.retryPending prim env d channel participants ctx = d'
    rcases retryPending_cases channel participants hd'.symm with
      rfl | rfl | rfl | ⟨msg, share, d₁, hmsg, hb, -⟩
    · rfl
    · rfl
    · rfl
    · exact absurd ⟨by simp [hmsg], hb.canTakePart⟩ hcan

end Retry

/-! ## Expiries -/

/-- A retry only takes a round that is ahead of the counter. -/
theorem retryPending_ahead (hnone : d.pendingRoundId = none) (channel : String)
    (participants : List String) :
    d.tracker.currentRoundId ≤
        (retryPending prim env d channel participants ctx).tracker.currentRoundId ∧
      ∀ id, (retryPending prim env d channel participants ctx).pendingRoundId = some id →
        d.tracker.currentRoundId < id := by
  refine retryPending_induct (I := fun d' => d.tracker.currentRoundId ≤ d'.tracker.currentRoundId ∧
    ∀ id, d'.pendingRoundId = some id → d.tracker.currentRoundId < id) ?_ ?_ ?_ ?_ ?_
  · simp [hnone]
  · exact fun _ h => h
  · exact fun _ _ h => h
  · exact fun _ h => ⟨Nat.le_succ_of_le h.1, h.2⟩
  · intro d' d₁ msg share h _ hb
    rw [hb.state_eq]
    refine ⟨Nat.le_succ_of_le h.1, fun id hid => ?_⟩
    have heq := Option.some.inj hid
    have hle := h.1
    omega

theorem currentRoundId_le_expireRound (id : ℕ) :
    d.tracker.currentRoundId ≤ (expireRound prim env ctx d id).tracker.currentRoundId := by
  rcases expireRound_cases id rfl with ⟨-, heq⟩ | ⟨-, heq⟩ | ⟨c, -, -, heq⟩
  · rw [heq]
    exact le_refl _
  · rw [heq]
    exact le_refl _
  · have hnone : (d.removeCollector id).clearPending.pendingRoundId = none := rfl
    rw [heq]
    exact (retryPending_ahead hnone _ _).1

/-- After its round has expired, the message waits for no round that the counter has passed. -/
theorem pendingRoundId_expireRound_mine {id id' : ℕ} (hmine : d.pendingRoundId = some id)
    (hle : id' ≤ d.tracker.currentRoundId) :
    (expireRound prim env ctx d id).pendingRoundId ≠ some id' := by
  rcases expireRound_cases id rfl with ⟨hne, -⟩ | ⟨-, heq⟩ | ⟨c, -, -, heq⟩
  · exact absurd hmine hne
  · rw [heq]
    simp [clearPending]
  · have hnone : (d.removeCollector id).clearPending.pendingRoundId = none := rfl
    rw [heq]
    intro hid
    have hlt := (retryPending_ahead hnone _ _).2 id' hid
    exact absurd hle (not_le.mpr hlt)

/-- The invariant does not read the emitted rounds or our own share, and the buffer can be
flushed. -/
theorem RetryInv.congr (h : d.RetryInv) (htracker : d'.tracker = d.tracker)
    (hmsg : d'.pendingMessage = d.pendingMessage) (hpending : d'.pendingRoundId = d.pendingRoundId)
    (hretries : d'.retries = d.retries) (hcollectors : d'.collectors = d.collectors)
    (hpeer : d'.retryAfterPeer = d.retryAfterPeer)
    (hbuffer : d'.pendingOutgoing = d.pendingOutgoing ∨ d'.pendingOutgoing = []) :
    d'.RetryInv := by
  have hlookup : ∀ id c, d'.collectors.lookup id = some c → d.collectors.lookup id = some c := by
    simp [hcollectors]
  refine ⟨h.sound.of_le (Or.inl hmsg) hlookup, ?_, ?_⟩
  · exact h.ordered.of_le (htracker ▸ le_refl _) hlookup (Or.inl hpending) (Or.inl hpeer) hbuffer
  · rw [retriesDue, hretries, hpending, hpeer]
    exact h.retries_le

theorem RetryInv.removeCollector (h : d.RetryInv) (id : ℕ) : (d.removeCollector id).RetryInv := by
  refine ⟨h.sound.removeCollector id, ?_, h.retries_le⟩
  exact h.ordered.of_le (le_refl _) (fun _ _ hc => lookup_removeCollector hc) (Or.inl rfl)
    (Or.inl rfl) (Or.inl rfl)

/-- The end of the message's own round leaves room for a retry. -/
theorem RetryInv.clearPending (h : d.RetryInv) {id : ℕ} (hmine : d.pendingRoundId = some id) :
    d.clearPending.Sound ∧ d.clearPending.Ordered ∧ d.clearPending.retriesDue ≤ 1 := by
  refine ⟨h.sound.clearPending, ?_, ?_⟩
  · exact h.ordered.of_le (le_refl _) (fun _ _ hc => hc) (Or.inr rfl) (Or.inl rfl) (Or.inl rfl)
  · have hle := h.retries_le
    simp only [retriesDue, hmine, Option.isSome_some, Bool.toNat_true] at hle
    simp only [retriesDue, RoundDriver.clearPending, Option.isSome_none, Bool.toNat_false]
    omega

theorem RetryInv.expireRound (h : d.RetryInv) (id : ℕ) :
    (expireRound prim env ctx d id).RetryInv := by
  rcases expireRound_cases id rfl with ⟨-, heq⟩ | ⟨hmine, heq⟩ | ⟨c, hmine, -, heq⟩
  · rw [heq]
    exact h.removeCollector id
  · obtain ⟨hs, ho, hdue⟩ := (h.removeCollector id).clearPending hmine
    rw [heq]
    exact ⟨hs, ho, Nat.le_succ_of_le hdue⟩
  · obtain ⟨hs, ho, hdue⟩ := (h.removeCollector id).clearPending hmine
    rw [heq]
    exact RetryInv.retryPending hs ho hdue

/-- The expiry of the message's own round. -/
theorem buffered_expireRound_mine (h : d.RetryInv) {id : ℕ} {ids : List ℕ}
    (hmine : d.pendingRoundId = some id) :
    (expireRound prim env ctx d id).buffered =
      d.buffered + if d.ExpiryFails ctx (id :: ids) then 1 else 0 := by
  obtain ⟨hs, ho, hdue⟩ := (h.removeCollector id).clearPending hmine
  cases hc : d.collectors.lookup id with
  | none =>
    -- without a collector there is nobody to retry with
    have hnot : ¬ d.ExpiryFails ctx (id :: ids) := by
      rintro ⟨-, id', -, hid', c, hc', -⟩
      obtain rfl := Option.some.inj (hmine.symm.trans hid')
      simp [hc] at hc'
    rw [expireRound_gone hmine hc, if_neg hnot]
    rfl
  | some c =>
    -- only our own round can fail, and only if it is retried
    have hiff : d.ExpiryFails ctx (id :: ids) ↔ d.pendingMessage.isSome = true ∧
        CanTakePart ctx (env.uidOrder.visit c.participants) := by
      rw [canTakePart_visit_iff]
      constructor
      · rintro ⟨hsome, id', -, hid', c', hc', hpart⟩
        obtain rfl := Option.some.inj (hmine.symm.trans hid')
        obtain rfl := Option.some.inj (hc.symm.trans hc')
        exact ⟨hsome, hpart⟩
      · rintro ⟨hsome, hpart⟩
        exact ⟨hsome, id, List.mem_cons_self, hmine, c, hc, hpart⟩
    have hnodup := (env.uidOrder.perm c.participants).nodup_iff.mpr (h.ordered.collectors id c hc).2
    rw [expireRound_mine h.sound hmine hc, buffered_retryPending hs ho hdue hnodup]
    simp only [hiff]
    rfl

/-- The expiry of another round leaves the message's own round as it is. -/
theorem expiryFails_removeCollector {id : ℕ} {ids : List ℕ} (hother : d.pendingRoundId ≠ some id) :
    (d.removeCollector id).ExpiryFails ctx ids ↔ d.ExpiryFails ctx (id :: ids) := by
  have hlookup : ∀ id', d.pendingRoundId = some id' →
      (d.removeCollector id).collectors.lookup id' = d.collectors.lookup id' := by
    intro id' hid'
    refine AList.lookup_erase_ne ?_
    rintro rfl
    exact hother hid'
  constructor
  · rintro ⟨hsome, id', hmem, hid', hc⟩
    exact ⟨hsome, id', List.mem_cons_of_mem id hmem, hid', hlookup id' hid' ▸ hc⟩
  · rintro ⟨hsome, id', hmem, hid', hc⟩
    refine ⟨hsome, id', ?_, hid', (hlookup id' hid').symm ▸ hc⟩
    refine (List.mem_cons.mp hmem).resolve_left ?_
    rintro rfl
    exact hother hid'

/-- The expired rounds cause one retry, if the message's own round is among them. -/
theorem buffered_foldl_expireRound (h : d.RetryInv) {ids : List ℕ}
    (hle : ∀ id ∈ ids, id ≤ d.tracker.currentRoundId) :
    (ids.foldl (expireRound prim env ctx) d).buffered =
      d.buffered + if d.ExpiryFails ctx ids then 1 else 0 := by
  induction ids generalizing d with
  | nil => simp [ExpiryFails]
  | cons id ids ih =>
    have hle' : ∀ id' ∈ ids, id' ≤ d.tracker.currentRoundId := fun id' hid' =>
      hle id' (List.mem_cons_of_mem id hid')
    rw [List.foldl_cons, ih (h.expireRound id) fun id' hid' =>
      (hle' id' hid').trans (currentRoundId_le_expireRound id)]
    by_cases hmine : d.pendingRoundId = some id
    -- the new round of the message is ahead of all the expired ones
    · have hnot : ¬ (expireRound prim env ctx d id).ExpiryFails ctx ids := by
        rintro ⟨-, id', hmem, hid', -⟩
        exact pendingRoundId_expireRound_mine hmine (hle' id' hmem) hid'
      rw [if_neg hnot, buffered_expireRound_mine h hmine]
      rfl
    · rw [expireRound_other hmine]
      simp only [expiryFails_removeCollector hmine]
      rfl

theorem buffered_dropExpired (h : d.RetryInv) :
    (dropExpired prim env ctx d).buffered =
      d.buffered + if d.ExpiryFails ctx (d.expiredRounds env) then 1 else 0 := by
  refine buffered_foldl_expireRound h fun id hid => ?_
  obtain ⟨-, hid⟩ := List.mem_filter.mp hid
  cases hc : d.collectors.lookup id with
  | none => simp [hc] at hid
  | some c => exact (h.ordered.collectors id c hc).1

/-! ## Messages -/

section Messages

variable {channel : String} {roundId : ℕ} {action : RoundAction}

/-- An announced round is answered with shares; nothing is retried. -/
theorem onRoundStart_retries (h : d.RetryInv) {leaderId : String} {participants : List String}
    {deadlineSecs payloadLen : ℕ}
    (hstart : onRoundStart prim env d channel roundId leaderId participants deadlineSecs payloadLen
      ctx = (d', action)) :
    d'.RetryInv ∧ d'.buffered = d.buffered ∧ startsOf action.outgoing = ∅ := by
  have hsound := h.sound.onRoundStart hstart
  rcases onRoundStart_cases hstart with ⟨rfl, rfl⟩ | ⟨d₁, hentered, hd'⟩
  · exact ⟨h, rfl, rfl⟩
  · obtain ⟨ho, hle, hdue, hbuffered⟩ : d₁.Ordered ∧ roundId ≤ d₁.tracker.currentRoundId ∧
        d₁.retriesDue ≤ 2 ∧ d₁.buffered = d.buffered := by
      rcases hentered with hnext | ⟨hpending, -⟩
      · refine ⟨?_, hnext.le, h.retries_le, rfl⟩
        exact h.ordered.of_le (Nat.le_succ _) (fun _ _ hc => hc) (Or.inl rfl) (Or.inl rfl)
          (Or.inl rfl)
      -- the message now waits for the round it has lost against, instead of its own
      · obtain ⟨-, ho, -⟩ := (h.removeCollector roundId).clearPending hpending
        have hle := h.ordered.pending roundId hpending
        refine ⟨⟨fun id c hc => ?_, fun id hid => ?_, fun id hid => ?_, ho.buffer⟩, hle, ?_, rfl⟩
        · simp only [abortPendingRound, hpending] at hc
          exact ho.collectors id c hc
        · simp [abortPendingRound] at hid
        · obtain rfl := Option.some.inj hid
          exact ⟨hle, by simp [abortPendingRound]⟩
        · have hdue := h.retries_le
          simp only [retriesDue, hpending, abortPendingRound, Option.isSome_some,
            Option.isSome_none, Bool.toNat_true, Bool.toNat_false] at hdue ⊢
          omega
    rcases hd' with ⟨rfl, rfl⟩ | ⟨share, hans⟩
    · exact ⟨⟨hsound, ho, hdue⟩, hbuffered, rfl⟩
    · obtain ⟨-, -, rfl, rfl⟩ := hans
      refine ⟨⟨hsound, ho.storeCollector hle ?_, hdue⟩, hbuffered, startsOf_toOthers_share ..⟩
      rw [RoundCollector.participants_trySubmit]
      exact List.nodup_dedup participants

/-- The retry after a lost conflict. -/
theorem retryAfter_retries (h : d.RetryInv) {participants : List String}
    (hnodup : participants.Nodup) :
    (retryAfter prim env d channel roundId participants ctx).RetryInv ∧
      (retryAfter prim env d channel roundId participants ctx).buffered = d.buffered +
        if d.pendingMessage.isSome = true ∧ CanTakePart ctx participants ∧
          d.retryAfterPeer = some roundId then 1 else 0 := by
  unfold retryAfter
  by_cases hpeer : d.retryAfterPeer = some roundId
  · have hs : Sound { d with retryAfterPeer := none } :=
      h.sound.of_le (Or.inl rfl) fun _ _ hc => hc
    have ho : Ordered { d with retryAfterPeer := none } :=
      h.ordered.of_le (le_refl _) (fun _ _ hc => hc) (Or.inl rfl) (Or.inr rfl) (Or.inl rfl)
    -- the retry that was due for the lost conflict is the one that is made now
    have hdue : retriesDue { d with retryAfterPeer := none } ≤ 1 := by
      have hle := h.retries_le
      simp only [retriesDue, hpeer, Option.isSome_some, Option.isSome_none, Bool.toNat_true,
        Bool.toNat_false] at hle ⊢
      omega
    rw [if_pos hpeer]
    dsimp only
    split_ifs with hsome hfails hfails
    · refine ⟨RetryInv.retryPending hs ho hdue, ?_⟩
      rw [buffered_retryPending hs ho hdue hnodup, if_pos ⟨hsome, hfails.2.1⟩]
      rfl
    · refine ⟨RetryInv.retryPending hs ho hdue, ?_⟩
      rw [buffered_retryPending hs ho hdue hnodup,
        if_neg fun hcan => hfails ⟨hsome, hcan.2, hpeer⟩]
      rfl
    · exact absurd hfails.1 hsome
    · exact ⟨⟨hs, ho, Nat.le_succ_of_le hdue⟩, rfl⟩
  · rw [if_neg hpeer, if_neg fun hfails => hpeer hfails.2.2]
    exact ⟨h, rfl⟩

/-- The end of the message's own round: it is retried unless the round has delivered a text. -/
theorem settleOwn_retries (h : d.RetryInv) (ok : Bool) {participants : List String}
    (hnodup : participants.Nodup) :
    (settleOwn prim env d channel roundId ok participants ctx).RetryInv ∧
      (settleOwn prim env d channel roundId ok participants ctx).buffered = d.buffered +
        if d.pendingMessage.isSome = true ∧ CanTakePart ctx participants ∧
          d.pendingRoundId = some roundId ∧ ok = false then 1 else 0 := by
  unfold settleOwn
  by_cases hmine : d.pendingRoundId = some roundId
  · obtain ⟨hs, ho, hdue⟩ := h.clearPending hmine
    rw [if_pos hmine]
    cases ok with
    | true =>
      refine ⟨⟨hs.of_le (Or.inr rfl) fun _ _ hc => hc, ?_, Nat.le_succ_of_le hdue⟩,
        by simp [buffered, clearPending]⟩
      exact ho.of_le (le_refl _) (fun _ _ hc => hc) (Or.inl rfl) (Or.inl rfl) (Or.inl rfl)
    | false =>
      refine ⟨RetryInv.retryPending hs ho hdue, ?_⟩
      simp only [Bool.false_eq_true, if_false, buffered_retryPending hs ho hdue hnodup, hmine,
        and_true]
      rfl
  · rw [if_neg hmine, if_neg fun hfails => hmine hfails.2.2.1]
    exact ⟨h, rfl⟩

theorem settleOwn_other (hother : d.pendingRoundId ≠ some roundId) (ok : Bool)
    (participants : List String) :
    settleOwn prim env d channel roundId ok participants ctx = d := if_neg hother

theorem retryAfterPeer_settleOwn (ok : Bool) (participants : List String) :
    (settleOwn prim env d channel roundId ok participants ctx).retryAfterPeer =
      d.retryAfterPeer := by
  unfold settleOwn
  split_ifs
  · rfl
  · exact retryAfterPeer_retryPending
  · rfl

/-- A round that is over causes one retry, if it was the message's own and has delivered no text,
or if the message had lost against it. -/
theorem retryAfter_settleOwn_retries (h : d.RetryInv) (ok : Bool) {participants : List String}
    (hnodup : participants.Nodup) :
    let d' := retryAfter prim env (settleOwn prim env d channel roundId ok participants ctx)
      channel roundId participants ctx
    d'.RetryInv ∧ d'.buffered = d.buffered +
      if d.pendingMessage.isSome = true ∧ CanTakePart ctx participants ∧
        (d.pendingRoundId = some roundId ∧ ok = false ∨ d.retryAfterPeer = some roundId)
      then 1 else 0 := by
  intro d'
  by_cases hmine : d.pendingRoundId = some roundId
  -- the message has not lost against its own round
  · have hpeer : d.retryAfterPeer ≠ some roundId := fun hpeer => (h.ordered.peer _ hpeer).2 hmine
    obtain ⟨hsettled, hbuffered⟩ :
        (settleOwn prim env d channel roundId ok participants ctx).RetryInv ∧ _ :=
      settleOwn_retries h ok hnodup
    obtain ⟨hafter, hbuffered'⟩ : d'.RetryInv ∧ _ := retryAfter_retries hsettled hnodup
    refine ⟨hafter, ?_⟩
    rw [hbuffered', hbuffered, retryAfterPeer_settleOwn]
    simp [hpeer]
  · obtain ⟨hafter, hbuffered⟩ : d'.RetryInv ∧ d'.buffered = _ := by
      unfold d'
      rw [settleOwn_other hmine]
      exact retryAfter_retries h hnodup
    refine ⟨hafter, ?_⟩
    simp [hbuffered, hmine]

/-- A finished round causes one retry, if it was the message's own and had no text, or if the
message had lost against it. -/
theorem finishRound_retries (h : d.RetryInv) {c : RoundCollector}
    (hnodup : c.participants.Nodup) :
    (finishRound prim env d channel roundId c ctx).1.RetryInv ∧
      (finishRound prim env d channel roundId c ctx).1.buffered = d.buffered +
        if d.pendingMessage.isSome = true ∧ CanTakePart ctx c.participants ∧
          (d.pendingRoundId = some roundId ∧ extraction prim d channel roundId c = [] ∨
            d.retryAfterPeer = some roundId) then 1 else 0 := by
  obtain ⟨emitted, heq⟩ := finishRound_fst prim env ctx d channel roundId c
  have hvisit : (env.uidOrder.visit c.participants).Nodup :=
    (env.uidOrder.perm c.participants).nodup_iff.mpr hnodup
  have hremoved : RetryInv { d.removeCollector roundId with emitted := emitted } :=
    (h.removeCollector roundId).congr rfl rfl rfl rfl rfl rfl (Or.inl rfl)
  obtain ⟨hafter, hbuffered⟩ : _ ∧ _ := retryAfter_settleOwn_retries hremoved
    (!(extraction prim d channel roundId c).isEmpty) hvisit
  rw [heq]
  refine ⟨hafter, hbuffered.trans ?_⟩
  simp only [canTakePart_visit_iff, Bool.not_eq_false', List.isEmpty_iff]
  rfl

theorem startsOf_broadcastOwnShare {c c' : RoundCollector} {out : Outgoing}
    (h : broadcastOwnShare env d channel roundId c ctx = (d', c', out)) : startsOf out = ∅ := by
  rcases broadcastOwnShare_cases h with ⟨-, -, rfl⟩ | ⟨s, sig, hrel⟩
  · rfl
  · rw [hrel.out_eq]
    exact startsOf_toOthers_share ..

/-- A stored share causes one retry if it makes a round fail. -/
theorem stored_retries (h : d.RetryInv) {peerUid : String} {share : Bytes}
    {c c₁ c₂ : RoundCollector} {d₁ : RoundDriver} {out : Outgoing}
    (hst : Stored prim env ctx d d' channel roundId peerUid share action c c₁ c₂ d₁ out) :
    d'.RetryInv ∧ d'.buffered = d.buffered +
        (if d.ShareFails prim env ctx channel roundId peerUid share then 1 else 0) ∧
      startsOf action.outgoing = ∅ := by
  have hsound := h.sound.stored hst
  have hout := startsOf_broadcastOwnShare hst.broadcast_eq
  have hstate := broadcastOwnShare_state hst.broadcast_eq
  have hparticipants := participants_of_broadcast hst.submit_eq hst.broadcast_eq
  obtain ⟨hle, hnodup⟩ := h.ordered.collectors _ _ hst.lookup_eq
  have hresult := hst.result_eq
  -- whether the share makes the round fail, read off the collector that is stored
  have hiff : d.ShareFails prim env ctx channel roundId peerUid share ↔
      c₂.isComplete = true ∧ d.pendingMessage.isSome = true ∧ CanTakePart ctx c₂.participants ∧
        (d.pendingRoundId = some roundId ∧ extraction prim d channel roundId c₂ = [] ∨
          d.retryAfterPeer = some roundId) := by
    simp only [ShareFails, hst.lookup_eq, hst.submit_eq, hst.broadcast_eq, hparticipants,
      Option.mem_def, Option.some.injEq, exists_eq_left', Except.toOption]
    tauto
  generalize d₁.myShareBroadcast = sent at hstate
  subst hstate
  have hsent : RetryInv { d with myShareBroadcast := sent } :=
    h.congr rfl rfl rfl rfl rfl rfl (Or.inl rfl)
  have hstored : (RoundDriver.storeCollector { d with myShareBroadcast := sent } roundId
      c₂).RetryInv :=
    ⟨hsound, hsent.ordered.storeCollector hle (hparticipants ▸ hnodup), h.retries_le⟩
  split_ifs at hresult with hcomplete
  · cases hresult
    obtain ⟨hfinished, hbuffered⟩ : _ ∧ _ := finishRound_retries hstored (hparticipants ▸ hnodup)
    refine ⟨hfinished, hbuffered.trans ?_, hout⟩
    simp only [hiff, hcomplete, true_and]
    rfl
  · cases hresult
    refine ⟨hstored, ?_, hout⟩
    rw [if_neg fun hfails => hcomplete (hiff.mp hfails).1]
    rfl

/-- An admitted share that the collector accepts is stored. -/
theorem stored_of_submit {peerUid : String} {share signature : Bytes} {c c₁ : RoundCollector}
    (hadmitted : shareAdmitted prim ctx channel roundId peerUid share signature = true)
    (hc : d.collectors.lookup roundId = some c) (hsubmit : c.submitShare peerUid share = .ok c₁)
    (hshare : onRoundShare prim env d channel roundId peerUid share signature ctx =
      (d', action)) :
    ∃ c₂ d₁ out, Stored prim env ctx d d' channel roundId peerUid share action c c₁ c₂ d₁ out := by
  obtain ⟨⟨d₁, c₂, out⟩, hb⟩ : ∃ r, broadcastOwnShare env d channel roundId c₁ ctx = r := ⟨_, rfl⟩
  refine ⟨c₂, d₁, out, hc, hsubmit, hb, ?_⟩
  rw [← hshare]
  simp only [onRoundShare, hadmitted, hc, hsubmit, hb, Bool.true_eq_false, if_false]
  rfl

/-- A share causes one retry if it is admitted and makes a round fail. -/
theorem onRoundShare_retries (h : d.RetryInv) {peerUid : String} {share signature : Bytes}
    (hshare : onRoundShare prim env d channel roundId peerUid share signature ctx =
      (d', action)) :
    d'.RetryInv ∧ d'.buffered = d.buffered +
        (if shareAdmitted prim ctx channel roundId peerUid share signature = true ∧
          d.ShareFails prim env ctx channel roundId peerUid share then 1 else 0) ∧
      startsOf action.outgoing = ∅ := by
  by_cases hadmitted : shareAdmitted prim ctx channel roundId peerUid share signature = true
  · simp only [hadmitted, true_and]
    rcases onRoundShare_cases hshare with ⟨rfl, rfl⟩ | ⟨c, c₁, c₂, d₁, out, hst⟩
    · by_cases hfails : d'.ShareFails prim env ctx channel roundId peerUid share
      · obtain ⟨-, c, hc, -, c₁, hc₁, -⟩ := hfails
        have hsubmit : c.submitShare peerUid share = .ok c₁ := by
          cases hres : c.submitShare peerUid share <;> simp_all [Except.toOption]
        obtain ⟨c₂, d₁, out, hst⟩ := stored_of_submit hadmitted hc hsubmit hshare
        exact stored_retries h hst
      · rw [if_neg hfails]
        exact ⟨h, rfl, rfl⟩
    · exact stored_retries h hst
  · unfold onRoundShare at hshare
    rw [if_pos (Bool.eq_false_of_not_eq_true hadmitted)] at hshare
    cases hshare
    refine ⟨h, ?_, rfl⟩
    rw [if_neg fun hfails => hadmitted hfails.1]
    rfl

/-- A message causes a retry for every round that it makes fail. -/
theorem respond_retries (h : d.RetryInv) (msg : PeerMessage) :
    (respond prim env d msg ctx).1.RetryInv ∧
      (respond prim env d msg ctx).1.buffered =
        d.buffered + d.messageFailures prim env ctx msg ∧
      startsOf (respond prim env d msg ctx).2.outgoing = ∅ := by
  cases msg with
  | dcRoundStart channel roundId leaderId participants deadlineSecs payloadLen =>
    exact onRoundStart_retries h rfl
  | dcRoundShare channel roundId peerUid share signature => exact onRoundShare_retries h rfl
  | _ => exact ⟨h, rfl, rfl⟩

/-- A handled message causes a retry for every round that has failed. -/
theorem handle_retries (h : d.RetryInv) (msg : PeerMessage) :
    (handle prim env d msg ctx).1.RetryInv ∧
      (startsOf (handle prim env d msg ctx).2.outgoing).card =
        d.buffered + ((if d.ExpiryFails ctx (d.expiredRounds env) then 1 else 0) +
          (dropExpired prim env ctx d).messageFailures prim env ctx msg) := by
  have hdrop : (dropExpired prim env ctx d).RetryInv :=
    dropExpired_induct h fun d id hd => hd.expireRound id
  obtain ⟨hrespond, hbuffered, hstarts⟩ :
      (respond prim env (dropExpired prim env ctx d) msg ctx).1.RetryInv ∧ _ ∧ _ :=
    respond_retries hdrop msg
  rw [buffered_dropExpired h] at hbuffered
  rw [handle_eq]
  refine ⟨hrespond.congr rfl rfl rfl rfl rfl rfl (Or.inr rfl), ?_⟩
  rw [startsOf_append, hstarts, Finset.empty_union, ← Nat.add_assoc, ← hbuffered]
  rfl

end Messages

/-! ## Runs -/

/-- The call comes from outside, with a message of its own. -/
def Initiates (input : DriverInput) : Prop :=
  ∃ channel text participants, input.call = .initiate channel text participants

/-- A new round leaves room for two failed retries. -/
theorem RetryInv.begun (h : d.RetryInv) {channel text : String} {participants : List String}
    {share : Bytes} (hb : Begun prim env ctx d d' channel text participants share) :
    d'.RetryInv := by
  have ho : Ordered { d' with pendingOutgoing := d.pendingOutgoing } :=
    h.ordered.begun hb fun id hid => Nat.le_succ_of_le (h.ordered.buffer id hid)
  refine ⟨h.sound.begun hb, ?_, ?_⟩
  · rw [hb.state_eq] at ho ⊢
    exact ho
  · rw [hb.state_eq]
    have hle := Bool.toNat_le d.retryAfterPeer.isSome
    simp only [retriesDue, beginRound, advance, Option.isSome_some, Bool.toNat_true]
    omega

/-- Between calls the buffer is empty. -/
theorem retryInv_call (h : d.RetryInv) (hempty : d.pendingOutgoing = []) (input : DriverInput) :
    (d.call prim input).1.RetryInv ∧ (d.call prim input).1.pendingOutgoing = [] := by
  rcases d.call_cases prim input with
    ⟨channel, text, participants, -, hcall | hcall | ⟨d', share, hb, hcall⟩⟩ | ⟨msg, -, hcall⟩ |
      ⟨-, hcall⟩
  · rw [hcall]
    exact ⟨h, hempty⟩
  · rw [hcall]
    refine ⟨⟨h.sound.of_le (Or.inl rfl) fun _ _ hc => hc, ?_, h.retries_le⟩, hempty⟩
    exact h.ordered.of_le (Nat.le_succ _) (fun _ _ hc => hc) (Or.inl rfl) (Or.inl rfl)
      (Or.inl rfl)
  · rw [hcall]
    refine ⟨h.begun hb, ?_⟩
    rw [hb.state_eq]
    exact hempty
  · rw [hcall]
    refine ⟨(handle_retries h msg).1, ?_⟩
    rw [handle_eq]
  · rw [hcall]
    exact ⟨h.congr rfl rfl rfl rfl rfl rfl (Or.inr rfl), rfl⟩

/-- A call that does not come with a new message announces one round for every failed one. -/
theorem card_startsOf_call (h : d.RetryInv) (hempty : d.pendingOutgoing = [])
    {input : DriverInput} (hinput : ¬ Initiates input) :
    (startsOf (d.call prim input).2.outgoing).card = d.failuresOf prim input := by
  unfold call failuresOf
  split
  next channel text participants hcall => exact absurd ⟨_, _, _, hcall⟩ hinput
  next msg hcall =>
    rw [(handle_retries h msg).2, hcall]
    simp [buffered, hempty]
  next hcall => simp [hcall, drainPendingOutgoing, hempty]

theorem retryInv_run (h : d.RetryInv) (hempty : d.pendingOutgoing = [])
    (inputs : List DriverInput) :
    (d.run prim inputs).1.RetryInv ∧ (d.run prim inputs).1.pendingOutgoing = [] := by
  induction inputs generalizing d with
  | nil => exact ⟨h, hempty⟩
  | cons input inputs ih =>
    obtain ⟨hcall, hempty'⟩ : (d.call prim input).1.RetryInv ∧ _ := retryInv_call h hempty input
    exact ih hcall hempty'

/-- Every failed round of the message is answered with a retry, without a bound. -/
theorem reinitiations_eq_failures (h : d.RetryInv) (hempty : d.pendingOutgoing = [])
    {inputs : List DriverInput} (hinputs : ∀ input ∈ inputs, ¬ Initiates input) :
    d.reinitiations prim inputs = failures prim d inputs := by
  induction inputs generalizing d with
  | nil => rfl
  | cons input inputs ih =>
    obtain ⟨hinput, hinputs⟩ := List.forall_mem_cons.mp hinputs
    obtain ⟨hcall, hempty'⟩ := retryInv_call h hempty input
    rw [failures, ← ih hcall hempty' hinputs, ← card_startsOf_call h hempty hinput]
    rfl

theorem retryInv_new : RoundDriver.new.RetryInv := ⟨sound_new, Ordered.new, by decide⟩

/-- After one `initiate`, at any point of any run, the driver initiates again by itself at most
`maxConflictRetries` times exactly if at most that many rounds of the message fail. -/
theorem retries_bounded_iff (before : List DriverInput) {channel text : String}
    {participants : List String} {out : Outgoing}
    (hinit : initiate prim env (RoundDriver.new.run prim before).1 channel text participants ctx =
      (d, .ok out))
    {inputs : List DriverInput} (hinputs : ∀ input ∈ inputs, ¬ Initiates input) :
    d.reinitiations prim inputs ≤ maxConflictRetries ↔
      failures prim d inputs ≤ maxConflictRetries := by
  obtain ⟨h, hempty⟩ : (RoundDriver.new.run prim before).1.RetryInv ∧ _ :=
    retryInv_run retryInv_new rfl before
  rcases initiate_cases hinit with ⟨-, e, he⟩ | ⟨-, e, he⟩ | ⟨share, hb, -⟩
  · cases he
  · cases he
  · have hempty' : d.pendingOutgoing = [] := by
      rw [hb.state_eq]
      exact hempty
    rw [reinitiations_eq_failures (h.begun hb) hempty' hinputs]

/-! ## Rounds that expire one after the other -/

/-- The clock stands at `t` when a message arrives that has nothing to do with rounds. -/
def pingAt (ctx : RoundContext) (t : ℕ) : DriverInput :=
  ⟨⟨.stored, .stored, t, fun _ => t⟩, ctx, .handle (.ping 0)⟩

theorem not_initiates_pingAt (ctx : RoundContext) (t : ℕ) : ¬ Initiates (pingAt ctx t) := by
  rintro ⟨channel, text, participants, h⟩
  cases h

/-- The round of the queued message is the only one, and has been started at `now`. -/
structure Alone (ctx : RoundContext) (d : RoundDriver) (now : ℕ) : Prop where
  inv : d.RetryInv
  empty : d.pendingOutgoing = []
  message : d.pendingMessage.isSome = true
  round : ∃ id c, d.pendingRoundId = some id ∧ d.collectors.keys = [id] ∧
    d.collectors.lookup id = some c ∧ c.deadline = now + channelRoundDeadlineSecs ∧
    CanTakePart ctx c.participants

/-- A new round, when there are no others. -/
theorem Alone.begun {channel text : String} {participants : List String} {share : Bytes}
    (hb : Begun prim env ctx d d' channel text participants share) (h : d.RetryInv)
    (hempty : d.pendingOutgoing = []) (hkeys : d.collectors.keys = [])
    (hnodup : participants.Nodup) : Alone ctx d' env.now := by
  refine ⟨h.begun hb, ?_, ?_, d.tracker.currentRoundId + 1, ?_⟩
  · rw [hb.state_eq]
    exact hempty
  · rw [hb.state_eq]
    rfl
  · have hpart : CanTakePart ctx participants.dedup := by
      rw [hnodup.dedup]
      exact hb.canTakePart
    rw [hb.state_eq]
    refine ⟨_, rfl, ?_, AList.lookup_insert _, rfl, hpart⟩
    simp only [beginRound, advance, AList.keys_insert, hkeys, List.erase_nil]

/-- The only round has expired after its deadline. -/
theorem expiredRounds_pingAt {id : ℕ} {c : RoundCollector} {t : ℕ}
    (hkeys : d.collectors.keys = [id]) (hlookup : d.collectors.lookup id = some c)
    (hdeadline : c.deadline ≤ t) : d.expiredRounds (pingAt ctx t).env = [id] := by
  have hvisit : (pingAt ctx t).env.idOrder.visit d.collectors.keys = [id] := hkeys
  rw [expiredRounds, hvisit]
  simp [hlookup, RoundCollector.isExpired, pingAt, hdeadline]

/-- Only the expired rounds matter to a message that has nothing to do with rounds. -/
theorem call_pingAt (t : ℕ) : (d.call prim (pingAt ctx t)).1 =
    { dropExpired prim (pingAt ctx t).env ctx d with pendingOutgoing := [] } := rfl

theorem failuresOf_pingAt (t : ℕ) : d.failuresOf prim (pingAt ctx t) =
    if d.ExpiryFails ctx (d.expiredRounds (pingAt ctx t).env) then 1 else 0 := rfl

/-- The round expires, and the message is alone with the next one. -/
theorem Alone.ping {now t : ℕ} (h : Alone ctx d now)
    (ht : now + channelRoundDeadlineSecs ≤ t) :
    d.failuresOf prim (pingAt ctx t) = 1 ∧ Alone ctx (d.call prim (pingAt ctx t)).1 t := by
  obtain ⟨id, c, hmine, hkeys, hlookup, hdeadline, hpart⟩ := h.round
  have hexpired : d.expiredRounds (pingAt ctx t).env = [id] :=
    expiredRounds_pingAt hkeys hlookup (hdeadline.trans_le ht)
  have hfails : d.ExpiryFails ctx [id] :=
    ⟨h.message, id, List.mem_singleton_self id, hmine, c, hlookup, hpart⟩
  rw [failuresOf_pingAt, hexpired, if_pos hfails]
  refine ⟨rfl, ?_⟩
  obtain ⟨hs, ho, hdue⟩ := (h.inv.removeCollector id).clearPending hmine
  obtain ⟨d₁, text, share, hb, heq⟩ := @retryPending_begun prim (pingAt ctx t).env ctx _ hs
    c.channel _ (retries_lt_of_due hdue) h.message ((canTakePart_visit_iff _).mpr hpart)
  have hdrop : dropExpired prim (pingAt ctx t).env ctx d =
      expireRound prim (pingAt ctx t).env ctx d id := by
    rw [dropExpired, hexpired]
    rfl
  have hempty : d₁.pendingOutgoing = [] := by
    rw [hb.state_eq]
    exact h.empty
  have hsame : { d₁ with pendingOutgoing := [] } = d₁ := by rw [← hempty]
  rw [call_pingAt, hdrop, expireRound_mine h.inv.sound hmine hlookup, heq, hsame]
  -- the retry is made in a state without any rounds
  refine Alone.begun hb ⟨?_, ?_, ?_⟩ h.empty ?_ (h.inv.ordered.collectors id c hlookup).2
  · exact hs.of_le (Or.inl rfl) fun _ _ hc => hc
  · exact ho.of_le (le_refl _) (fun _ _ hc => hc) (Or.inl rfl) (Or.inl rfl) (Or.inl rfl)
  · unfold retriesDue at hdue ⊢
    dsimp only
    omega
  · simp [clearPending, removeCollector, AList.keys_erase, hkeys]

/-- A message each time that a round has expired. -/
def pings (ctx : RoundContext) (now : ℕ) : ℕ → List DriverInput
  | 0 => []
  | n + 1 => pingAt ctx (now + channelRoundDeadlineSecs) ::
      pings ctx (now + channelRoundDeadlineSecs) n

/-- One round after the other fails, and the message is retried each time. -/
theorem Alone.failures_pings {now : ℕ} (h : Alone ctx d now) (n : ℕ) :
    failures prim d (pings ctx now n) = n := by
  induction n generalizing d now with
  | zero => rfl
  | succ n ih =>
    obtain ⟨hone, hnext⟩ : d.failuresOf prim _ = 1 ∧ _ := h.ping (le_refl _)
    rw [pings, failures, hone, ih hnext, Nat.add_comm]

theorem not_initiates_pings (n : ℕ) : ∀ now, ∀ input ∈ pings ctx now n, ¬ Initiates input := by
  induction n with
  | zero => simp [pings]
  | succ n ih =>
    intro now
    exact List.forall_mem_cons.mpr ⟨not_initiates_pingAt ctx _, ih _⟩

/-- Alice's message is alone with its round. -/
theorem alone_aliceInitiates :
    Alone aliceCtx (RoundDriver.new.call .const aliceInitiates).1 0 := by
  obtain ⟨share, hb⟩ := call_aliceInitiates
  exact Alone.begun hb retryInv_new rfl rfl (by decide)

/-- Alice's round expires once, and her message is retried once. -/
theorem retries_bounded_iff_one_expiry : ∃ d out,
    initiate .const .still RoundDriver.new "#g" "hi" ["alice", "bob"] aliceCtx = (d, .ok out) ∧
      (d.reinitiations .const (pings aliceCtx 0 1) ≤ maxConflictRetries ↔
        failures .const d (pings aliceCtx 0 1) ≤ maxConflictRetries) := by
  obtain ⟨d, share, -, hinit⟩ : ∃ d share,
      Begun .const .still aliceCtx RoundDriver.new d "#g" "hi" ["alice", "bob"] share ∧
        initiate .const .still RoundDriver.new "#g" "hi" ["alice", "bob"] aliceCtx =
          (d, .ok _) := initiate_begun (by decide) ⟨by decide, by decide, by decide⟩
  exact ⟨d, _, hinit, retries_bounded_iff [] hinit (not_initiates_pings 1 0)⟩

/-- Alice's rounds expire four times, and her message is retried four times. -/
theorem retried_four_times : maxConflictRetries <
    (RoundDriver.new.call .const aliceInitiates).1.reinitiations .const (pings aliceCtx 0 4) := by
  have h := alone_aliceInitiates
  rw [reinitiations_eq_failures h.inv h.empty (not_initiates_pings 4 0), h.failures_pings]
  decide

end RoundDriver

end ChronoShift
