import ChronoShift.DcNet.RoundDriverCases

/-!
# One share for each round

A driver sends shares on two paths: a neutral one when it answers an announced round, and its
message-bearing one when all the others have answered its own round. `OneShareInv` is what keeps
the two exclusive, whatever the network delivers. A neutral share is sent only for the round the
counter has just moved to, or for a pending round that has been given up; a pending round is one
for which nothing has been sent yet.

* `call_sharesOnce`: one call sends copies of at most one share, of a round not shared before;
* `one_share_per_round`: in a run, all shares of a round come from one call and are equal.
-/

namespace ChronoShift

open ToMathlib

/-- The shares among what a call emits. -/
theorem mem_sharesOf {out : Outgoing} {roundId : ℕ} {payload : Bytes} :
    (roundId, payload) ∈ sharesOf out ↔ ∃ target channel uid signature,
      (target, PeerMessage.dcRoundShare channel roundId uid payload signature) ∈ out := by
  rw [sharesOf, List.mem_filterMap]
  constructor
  · rintro ⟨⟨target, msg⟩, hmem, heq⟩
    cases msg <;> simp only [Option.some.injEq, Prod.mk.injEq, reduceCtorEq] at heq
    obtain ⟨rfl, rfl⟩ := heq
    exact ⟨_, _, _, _, hmem⟩
  · rintro ⟨target, channel, uid, signature, hmem⟩
    exact ⟨_, hmem, rfl⟩

/-- The shares of two batches, one after the other. -/
theorem sharesOf_append (out out' : Outgoing) :
    sharesOf (out ++ out') = sharesOf out ++ sharesOf out' := List.filterMap_append

/-- The copies of one share. -/
theorem eq_of_mem_sharesOf_toOthers {myUid : String} {participants : List String}
    {channel uid : String} {roundId : ℕ} {payload signature : Bytes} {s : ℕ × Bytes}
    (h : s ∈ sharesOf (RoundDriver.toOthers myUid participants
      (.dcRoundShare channel roundId uid payload signature))) : s = (roundId, payload) := by
  obtain ⟨r, p⟩ := s
  obtain ⟨target, channel', uid', signature', hmem⟩ := mem_sharesOf.mp h
  have heq := (RoundDriver.mem_toOthers.mp hmem).2.2
  cases heq
  rfl

/-- To announce a round is not to share it. -/
theorem sharesOf_announcement (d : RoundDriver) (ctx : RoundContext) (channel : String)
    (participants : List String) : sharesOf (d.announcement ctx channel participants) = [] := by
  rw [List.eq_nil_iff_forall_not_mem]
  rintro ⟨r, p⟩ h
  obtain ⟨target, channel', uid', signature', hmem⟩ := mem_sharesOf.mp h
  have heq := (RoundDriver.mem_toOthers.mp hmem).2.2
  cases heq

/-- The state of a driver that has sent shares for the rounds in `shared`. -/
structure OneShareInv (shared : Set ℕ) (d : RoundDriver) : Prop where
  shared_le : ∀ id ∈ shared, id ≤ d.tracker.currentRoundId
  pending_le : ∀ id, d.pendingRoundId = some id → id ≤ d.tracker.currentRoundId
  /-- Nothing has been sent yet for the pending round. -/
  pending_unshared : ∀ id, d.pendingRoundId = some id → id ∉ shared
  /-- The pending round has the payload length of channel rounds, and so has our share. -/
  pending_len : ∀ id c, d.pendingRoundId = some id → d.collectors.lookup id = some c →
    c.payloadLen = channelPayloadLen
  share_len : ∀ share signature, d.myShare = some (share, signature) →
    share.length = channelPayloadLen
  wellFormed : ∀ id c, d.collectors.lookup id = some c → c.WellFormed
  /-- Retries buffer announcements only. -/
  outgoing : sharesOf d.pendingOutgoing = []

namespace OneShareInv

variable {prim : Primitives} {env : CallEnv} {ctx : RoundContext} {d d' : RoundDriver}
  {shared : Set ℕ}

/-- Nothing has been shared. -/
theorem new : OneShareInv ∅ RoundDriver.new where
  shared_le id h := absurd h (Set.notMem_empty id)
  pending_le id h := by simp [RoundDriver.new] at h
  pending_unshared id h := by simp [RoundDriver.new] at h
  pending_len id c h := by simp [RoundDriver.new] at h
  share_len share signature h := by simp [RoundDriver.new] at h
  wellFormed id c h := by simp [RoundDriver.new] at h
  outgoing := rfl

/-- The invariant does not read the queued message, the retry counters or the emitted rounds. -/
theorem congr (h : OneShareInv shared d) (htracker : d'.tracker = d.tracker)
    (hpending : d'.pendingRoundId = d.pendingRoundId) (hcollectors : d'.collectors = d.collectors)
    (hshare : d'.myShare = d.myShare) (hout : sharesOf d'.pendingOutgoing = []) :
    OneShareInv shared d' := by
  refine ⟨?_, ?_, ?_, ?_, ?_, ?_, hout⟩
  · rw [htracker]
    exact h.shared_le
  · rw [htracker, hpending]
    exact h.pending_le
  · rw [hpending]
    exact h.pending_unshared
  · rw [hpending, hcollectors]
    exact h.pending_len
  · rw [hshare]
    exact h.share_len
  · rw [hcollectors]
    exact h.wellFormed

/-- Rounds that are passed over are not shared. -/
theorem advance (h : OneShareInv shared d) : OneShareInv shared d.advance where
  shared_le id hid := Nat.le_succ_of_le (h.shared_le id hid)
  pending_le id hid := Nat.le_succ_of_le (h.pending_le id hid)
  pending_unshared := h.pending_unshared
  pending_len := h.pending_len
  share_len := h.share_len
  wellFormed := h.wellFormed
  outgoing := h.outgoing

/-- A pending round that is given up is not shared later. -/
theorem clearPending (h : OneShareInv shared d) : OneShareInv shared d.clearPending where
  shared_le := h.shared_le
  pending_le id hid := by simp [RoundDriver.clearPending] at hid
  pending_unshared id hid := by simp [RoundDriver.clearPending] at hid
  pending_len id c hid := by simp [RoundDriver.clearPending] at hid
  share_len share signature hs := by simp [RoundDriver.clearPending] at hs
  wellFormed := h.wellFormed
  outgoing := h.outgoing

/-- A round that is no longer collected. -/
theorem removeCollector (h : OneShareInv shared d) (id : ℕ) :
    OneShareInv shared (d.removeCollector id) where
  shared_le := h.shared_le
  pending_le := h.pending_le
  pending_unshared := h.pending_unshared
  pending_len id' c hid hc := h.pending_len id' c hid (RoundDriver.lookup_removeCollector hc)
  share_len := h.share_len
  wellFormed id' c hc := h.wellFormed id' c (RoundDriver.lookup_removeCollector hc)
  outgoing := h.outgoing

/-- A well-formed collector is stored. -/
theorem storeCollector (h : OneShareInv shared d) (id : ℕ) {c : RoundCollector}
    (hc : c.WellFormed)
    (hlen : d.pendingRoundId = some id → c.payloadLen = channelPayloadLen) :
    OneShareInv shared (d.storeCollector id c) where
  shared_le := h.shared_le
  pending_le := h.pending_le
  pending_unshared := h.pending_unshared
  pending_len id' c' hid hc' := by
    rcases RoundDriver.lookup_storeCollector hc' with ⟨rfl, rfl⟩ | hc'
    · exact hlen hid
    · exact h.pending_len id' c' hid hc'
  share_len := h.share_len
  wellFormed id' c' hc' := by
    rcases RoundDriver.lookup_storeCollector hc' with ⟨rfl, rfl⟩ | hc'
    · exact hc
    · exact h.wellFormed id' c' hc'
  outgoing := h.outgoing

/-- A round of our own is set up at an id above all the shared ones. -/
theorem begun (h : OneShareInv shared d) {channel text : String} {participants : List String}
    {share : Bytes} (hb : d.Begun prim env ctx d' channel text participants share) :
    OneShareInv shared d' := by
  obtain ⟨-, -, -, hshare, rfl⟩ := hb
  have hstore := h.advance.clearPending.storeCollector (d.tracker.currentRoundId + 1)
    (RoundCollector.wellFormed_new channel (d.tracker.currentRoundId + 1) participants
      channelRoundDeadlineSecs channelPayloadLen env.now) (fun _ => rfl)
  -- the new id is the counter itself, one above everything shared so far
  refine ⟨hstore.shared_le, ?_, ?_, ?_, ?_, hstore.wellFormed, h.outgoing⟩
  · rintro id hid
    obtain rfl := Option.some.inj hid
    exact le_refl _
  · rintro id hid hmem
    obtain rfl := Option.some.inj hid
    exact absurd (h.shared_le _ hmem) (Nat.not_succ_le_self _)
  · rintro id c hid hc
    obtain rfl := Option.some.inj hid
    change (d.collectors.insert (d.tracker.currentRoundId + 1) _).lookup _ = some c at hc
    rw [AList.lookup_insert] at hc
    obtain rfl := Option.some.inj hc
    rfl
  · rintro share' signature hs
    cases hs
    exact (computeXorShareSecure_eq_some hshare).1

/-- A retry starts a round that has not been shared. -/
theorem retryPending (h : OneShareInv shared d) (channel : String) (participants : List String) :
    OneShareInv shared (RoundDriver.retryPending prim env d channel participants ctx) := by
  refine RoundDriver.retryPending_induct h ?_ ?_ ?_ ?_
  · exact fun d hd => hd.congr rfl rfl rfl rfl hd.outgoing
  · exact fun d n hd => hd.congr rfl rfl rfl rfl hd.outgoing
  · exact fun d hd => hd.advance
  · intro d d₁ msg share hd _ hb
    refine (hd.begun hb).congr rfl rfl rfl rfl ?_
    rw [sharesOf_append, hd.outgoing, sharesOf_announcement]
    rfl

/-- Expired rounds are given up or retried. -/
theorem dropExpired (h : OneShareInv shared d) :
    OneShareInv shared (RoundDriver.dropExpired prim env ctx d) := by
  refine RoundDriver.dropExpired_induct h fun d id hd => ?_
  rcases RoundDriver.expireRound_cases id rfl with ⟨-, heq⟩ | ⟨-, heq⟩ | ⟨c, -, -, heq⟩
  · rw [heq]
    exact hd.removeCollector id
  · rw [heq]
    exact (hd.removeCollector id).clearPending
  · rw [heq]
    exact (hd.removeCollector id).clearPending.retryPending _ _

/-- One more round is shared, once it is not pending. -/
theorem share (h : OneShareInv shared d) {id : ℕ} (hle : id ≤ d.tracker.currentRoundId)
    (hpending : d.pendingRoundId ≠ some id) : OneShareInv (insert id shared) d where
  shared_le id' hid' := by
    rcases hid' with rfl | hid'
    · exact hle
    · exact h.shared_le id' hid'
  pending_le := h.pending_le
  pending_unshared id' hid' hmem := by
    rcases hmem with rfl | hmem
    · exact hpending hid'
    · exact h.pending_unshared id' hid' hmem
  pending_len := h.pending_len
  share_len := h.share_len
  wellFormed := h.wellFormed
  outgoing := h.outgoing

/-- When a round is finished it is not pending any more, so the invariant is only needed for the
state without it. -/
theorem finishRound {channel : String} {id : ℕ} {c : RoundCollector}
    (hother : d.pendingRoundId ≠ some id → OneShareInv shared d)
    (hmine : d.pendingRoundId = some id → OneShareInv shared d.clearPending) :
    OneShareInv shared (RoundDriver.finishRound prim env d channel id c ctx).1 := by
  refine RoundDriver.finishRound_induct (fun emitted => ⟨fun hne => ?_, fun heq => ?_⟩) ?_ ?_ ?_
  · have hd := (hother hne).removeCollector id
    exact hd.congr rfl rfl rfl rfl hd.outgoing
  · have hd := (hmine heq).removeCollector id
    exact hd.congr rfl rfl rfl rfl hd.outgoing
  · exact fun d hd => hd.congr rfl rfl rfl rfl hd.outgoing
  · exact fun d hd => hd.congr rfl rfl rfl rfl hd.outgoing
  · exact fun d hd => hd.retryPending _ _

end OneShareInv

/-- What a call of a driver sends and leaves behind: no share, or copies of one share of a round
that had not been shared. -/
def SharesOnce (shared : Set ℕ) (d' : RoundDriver) (out : Outgoing) : Prop :=
  (sharesOf out = [] ∧ OneShareInv shared d') ∨
    ∃ id payload, id ∉ shared ∧ (∀ s ∈ sharesOf out, s = (id, payload)) ∧
      OneShareInv (insert id shared) d'

section Calls

variable {prim : Primitives} {env : CallEnv} {ctx : RoundContext} {d d' : RoundDriver}
  {shared : Set ℕ} {channel : String} {roundId : ℕ} {action : RoundAction}

/-- Answering an announced round shares the round the counter has moved to, or a round of our own
that has been given up. -/
theorem onRoundStart_sharesOnce (h : OneShareInv shared d) {leaderId : String}
    {participants : List String} {deadlineSecs payloadLen : ℕ}
    (hstart : RoundDriver.onRoundStart prim env d channel roundId leaderId participants
      deadlineSecs payloadLen ctx = (d', action)) :
    SharesOnce shared d' action.outgoing := by
  rcases RoundDriver.onRoundStart_cases hstart with ⟨rfl, rfl⟩ | ⟨d₁, hentered, hd'⟩
  · exact Or.inl ⟨rfl, h⟩
  · -- the round is not shared yet, and it is not pending in the state it is entered in
    obtain ⟨hd₁, hunshared, hle, hpending⟩ : OneShareInv shared d₁ ∧ roundId ∉ shared ∧
        roundId ≤ d₁.tracker.currentRoundId ∧ d₁.pendingRoundId ≠ some roundId := by
      rcases hentered with hnext | ⟨hpending, -⟩
      -- the counter has just moved to the round
      · refine ⟨h.advance, fun hmem => ?_, hnext.le, fun hp => ?_⟩
        · have hle := h.shared_le _ hmem
          omega
        · have hle := h.pending_le _ hp
          omega
      -- the round was our pending one, for which nothing had been sent
      · refine ⟨?_, h.pending_unshared _ hpending, h.pending_le _ hpending, ?_⟩
        · have hcleared := (h.removeCollector roundId).clearPending
          refine hcleared.congr rfl rfl ?_ rfl hcleared.outgoing
          simp only [RoundDriver.abortPendingRound, hpending]
          rfl
        · simp [RoundDriver.abortPendingRound]
    rcases hd' with ⟨rfl, rfl⟩ | ⟨share, -, -, rfl, rfl⟩
    · exact Or.inl ⟨rfl, hd₁⟩
    · refine Or.inr ⟨roundId, share, hunshared, fun s hs => eq_of_mem_sharesOf_toOthers hs, ?_⟩
      have hstore := hd₁.storeCollector roundId ((RoundCollector.wellFormed_new channel roundId
        participants deadlineSecs payloadLen env.now).trySubmit ctx.myUid share)
        fun hp => absurd hp hpending
      exact hstore.share hle hpending

/-- An incoming share may release our own share, for the pending round only, and that round is
then over. -/
theorem onRoundShare_sharesOnce (h : OneShareInv shared d) {peerUid : String}
    {share signature : Bytes}
    (hshare : RoundDriver.onRoundShare prim env d channel roundId peerUid share signature ctx =
      (d', action)) :
    SharesOnce shared d' action.outgoing := by
  rcases RoundDriver.onRoundShare_cases hshare with ⟨rfl, rfl⟩ | ⟨c, c₁, c₂, d₁, out, hst⟩
  · exact Or.inl ⟨rfl, h⟩
  · obtain ⟨hlookup, hsubmit, hbroadcast, hresult⟩ := hst
    have hc₁ : c₁.WellFormed := (h.wellFormed _ _ hlookup).submitShare hsubmit
    have hlen : d.pendingRoundId = some roundId → c₁.payloadLen = channelPayloadLen := by
      intro hp
      rw [(RoundCollector.submitShare_frame hsubmit).2.2.2, h.pending_len _ _ hp hlookup]
    rcases RoundDriver.broadcastOwnShare_cases hbroadcast with ⟨rfl, rfl, rfl⟩ | ⟨s, sig, hrel⟩
    · -- nothing is sent; the round may be complete all the same
      have hstore := h.storeCollector roundId hc₁ hlen
      split_ifs at hresult
      · cases hresult
        exact Or.inl ⟨rfl, OneShareInv.finishRound (fun _ => hstore) (fun _ => hstore.clearPending)⟩
      · cases hresult
        exact Or.inl ⟨rfl, hstore⟩
    · -- our share has the length of the pending round, so it completes the round
      have hcomplete := hrel.isComplete hc₁
        (by rw [h.share_len _ _ hrel.share_eq, hlen hrel.pending])
      rw [if_pos hcomplete] at hresult
      cases hresult
      obtain ⟨hpending, -, -, -, rfl, rfl, rfl⟩ := hrel
      refine Or.inr ⟨roundId, s, h.pending_unshared _ hpending,
        fun s hs => eq_of_mem_sharesOf_toOthers hs, ?_⟩
      -- the invariant of the shared round holds again once the round has been cleared
      refine OneShareInv.finishRound (fun hne => absurd hpending hne) fun _ => ?_
      have hstore := (h.clearPending.share (h.pending_le _ hpending) (by
        simp [RoundDriver.clearPending])).storeCollector roundId (hc₁.trySubmit ctx.myUid s)
        fun hp => by simp [RoundDriver.clearPending] at hp
      exact hstore.congr rfl rfl rfl rfl hstore.outgoing

/-- The buffered announcements go out with the result. -/
theorem SharesOnce.flush {out : Outgoing} (h : SharesOnce shared d out) :
    SharesOnce shared { d with pendingOutgoing := [] } (out ++ d.pendingOutgoing) := by
  have hflush : ∀ {shared}, OneShareInv shared d →
      sharesOf (out ++ d.pendingOutgoing) = sharesOf out ∧
        OneShareInv shared { d with pendingOutgoing := [] } := by
    intro shared hd
    rw [sharesOf_append, hd.outgoing, List.append_nil]
    exact ⟨rfl, hd.congr rfl rfl rfl rfl rfl⟩
  rcases h with ⟨hnone, hd⟩ | ⟨id, payload, hunshared, hall, hd⟩
  · obtain ⟨heq, hinv⟩ := hflush hd
    exact Or.inl ⟨heq.trans hnone, hinv⟩
  · obtain ⟨heq, hinv⟩ := hflush hd
    exact Or.inr ⟨id, payload, hunshared, heq ▸ hall, hinv⟩

/-- One call sends copies of at most one share, of a round that had not been shared. -/
theorem call_sharesOnce (h : OneShareInv shared d) {input : DriverInput}
    (hcall : RoundDriver.call prim d input = (d', action)) :
    SharesOnce shared d' action.outgoing := by
  rcases d.call_cases prim input with
    ⟨channel, text, participants, -, heq | heq | ⟨d₁, share, hb, heq⟩⟩ | ⟨msg, -, heq⟩ | ⟨-, heq⟩
  · cases heq.symm.trans hcall
    exact Or.inl ⟨rfl, h⟩
  · cases heq.symm.trans hcall
    exact Or.inl ⟨rfl, h.advance⟩
  · cases heq.symm.trans hcall
    exact Or.inl ⟨sharesOf_announcement _ _ _ _, h.begun hb⟩
  · have hdrop : OneShareInv shared (RoundDriver.dropExpired prim input.env input.ctx d) :=
      h.dropExpired
    rw [heq] at hcall
    unfold RoundDriver.handle at hcall
    cases hcall
    refine SharesOnce.flush ?_
    split
    · exact onRoundStart_sharesOnce hdrop rfl
    · exact onRoundShare_sharesOnce hdrop rfl
    · exact Or.inl ⟨rfl, hdrop⟩
  · cases heq.symm.trans hcall
    exact Or.inl ⟨h.outgoing, h.congr rfl rfl rfl rfl rfl⟩

end Calls

section Runs

variable {prim : Primitives} {d : RoundDriver} {shared : Set ℕ}

/-- The shares of the first call. -/
theorem sharesAt_run_zero (input : DriverInput) (inputs : List DriverInput) :
    sharesAt (d.run prim (input :: inputs)).2 0 = sharesOf (d.call prim input).2.outgoing := rfl

/-- From a state that has shared the rounds in `shared`, a run shares other rounds only. -/
theorem run_shares_notMem (h : OneShareInv shared d) (inputs : List DriverInput) {i : ℕ}
    {s : ℕ × Bytes} (hs : s ∈ sharesAt (d.run prim inputs).2 i) : s.1 ∉ shared := by
  induction inputs generalizing shared d i with
  | nil => simp [RoundDriver.run, sharesAt] at hs
  | cons input inputs ih =>
    have hstep : SharesOnce shared (d.call prim input).1 (d.call prim input).2.outgoing :=
      call_sharesOnce h rfl
    rcases hstep with ⟨hnone, hd⟩ | ⟨id, payload, hunshared, hall, hd⟩
    · cases i with
      | zero =>
        rw [sharesAt_run_zero, hnone] at hs
        exact absurd hs List.not_mem_nil
      | succ i => exact ih hd hs
    · cases i with
      | zero =>
        rw [hall s hs]
        exact hunshared
      | succ i => exact fun hmem => ih hd hs (Set.mem_insert_of_mem _ hmem)

/-- Two shares of one round in a run come from one call and are equal. -/
theorem run_shares_eq (h : OneShareInv shared d) (inputs : List DriverInput) {i j : ℕ}
    {s s' : ℕ × Bytes} (hs : s ∈ sharesAt (d.run prim inputs).2 i)
    (hs' : s' ∈ sharesAt (d.run prim inputs).2 j) (hround : s.1 = s'.1) : i = j ∧ s = s' := by
  induction inputs generalizing shared d i j with
  | nil => simp [RoundDriver.run, sharesAt] at hs
  | cons input inputs ih =>
    have hstep : SharesOnce shared (d.call prim input).1 (d.call prim input).2.outgoing :=
      call_sharesOnce h rfl
    rcases hstep with ⟨hnone, hd⟩ | ⟨id, payload, -, hall, hd⟩
    · -- the first call shares nothing, so both shares come from later calls
      cases i with
      | zero =>
        rw [sharesAt_run_zero, hnone] at hs
        exact absurd hs List.not_mem_nil
      | succ i =>
        cases j with
        | zero =>
          rw [sharesAt_run_zero, hnone] at hs'
          exact absurd hs' List.not_mem_nil
        | succ j =>
          obtain ⟨hij, heq⟩ := ih hd hs hs'
          exact ⟨congrArg _ hij, heq⟩
    · -- the first call shares `id`, and later calls share other rounds
      have hlater : ∀ {k : ℕ} {t : ℕ × Bytes},
          t ∈ sharesAt (RoundDriver.run prim (d.call prim input).1 inputs).2 k → t.1 ≠ id :=
        fun ht heq => run_shares_notMem hd inputs ht (heq ▸ Set.mem_insert id shared)
      cases i with
      | zero =>
        cases j with
        | zero => exact ⟨rfl, (hall s hs).trans (hall s' hs').symm⟩
        | succ j => exact absurd (hround.symm.trans (congrArg Prod.fst (hall s hs))) (hlater hs')
      | succ i =>
        cases j with
        | zero => exact absurd (hround.trans (congrArg Prod.fst (hall s' hs'))) (hlater hs)
        | succ j =>
          obtain ⟨hij, heq⟩ := ih hd hs hs'
          exact ⟨congrArg _ hij, heq⟩

end Runs

/-- One share for each round, whatever the network delivers. In every run of a new driver, all
share messages sent for one round id are sent by one call and carry the same payload; since a
call sends either a neutral share or our message-bearing one, no round id gets both. -/
theorem one_share_per_round (prim : Primitives) (inputs : List DriverInput) (i j roundId : ℕ)
    (payload payload' : Bytes)
    (hi : (roundId, payload) ∈ sharesAt (RoundDriver.new.run prim inputs).2 i)
    (hj : (roundId, payload') ∈ sharesAt (RoundDriver.new.run prim inputs).2 j) :
    i = j ∧ payload = payload' := by
  obtain ⟨hij, heq⟩ := run_shares_eq OneShareInv.new inputs hi hj rfl
  exact ⟨hij, congrArg Prod.snd heq⟩

/-- A member answering a round of three: both copies of its share are the same. -/
theorem one_share_per_round_answer :
    let inputs : List DriverInput := [⟨⟨.stored, .stored, 0, fun _ => 0⟩,
      ⟨"b", .replicate 32 1, HashMap.ofPairs [("a", .replicate 32 2), ("c", .replicate 32 3)], ∅⟩,
      .handle (.dcRoundStart "#g" 1 "a" ["a", "b", "c"] 30 4)⟩]
    (1, [0, 0, 0, 0]) ∈ sharesAt (RoundDriver.new.run .const inputs).2 0 ∧
      (0 = 0 ∧ ([0, 0, 0, 0] : Bytes) = [0, 0, 0, 0]) := by
  intro inputs
  have h : (1, [0, 0, 0, 0]) ∈ sharesAt (RoundDriver.new.run .const inputs).2 0 := by decide
  exact ⟨h, one_share_per_round .const inputs 0 0 1 _ _ h h⟩

end ChronoShift
