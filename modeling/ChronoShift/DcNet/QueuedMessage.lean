import ChronoShift.DcNet.RoundDriverCases

/-!
# The queued message of a driver

A message that is queued waits for a round: for its own, or for the one that its own has lost a
conflict against. When that round completes or expires, the message is delivered, retried or
dropped. It is orphaned when the round goes away without any of this: when the driver cannot take
part in the round it has lost against, when that round expires, and when a retry is refused.

* `RoundDriver.Held`: a queued message waits for a round with a live collector;
* `RoundDriver.KeepsMessage`: the call takes none of the three ways out;
* `RoundDriver.held_of_reachable`: in runs of such calls, a queued message is never orphaned.
-/

namespace ChronoShift

open ToMathlib

namespace RoundDriver

variable {prim : Primitives} {env : CallEnv} {ctx : RoundContext} {d d' : RoundDriver}

/-- The round has a live collector. -/
def Waiting (d : RoundDriver) (round : Option ℕ) : Prop :=
  ∃ id, round = some id ∧ id ∈ d.collectors

/-- A queued message waits for its own round, or for the one it has lost against. -/
def Held (d : RoundDriver) : Prop :=
  d.pendingMessage.isSome = true → d.Waiting d.pendingRoundId ∨ d.Waiting d.retryAfterPeer

/-- We are one of several participants, and hold an edge key for each other one. -/
def CanTakePart (ctx : RoundContext) (participants : List String) : Prop :=
  2 ≤ participants.length ∧ ctx.myUid ∈ participants ∧
    ∀ other ∈ participants, other ≠ ctx.myUid → other ∈ ctx.edgeKeys

/-- A retry drops the message, or can start a round. -/
def CanRetry (d : RoundDriver) (ctx : RoundContext) (participants : List String) : Prop :=
  maxConflictRetries ≤ d.retries ∨ CanTakePart ctx participants

/-- The expiry of round `id` does not orphan the message: if the round is its own, it can be retried
or waits for another round; if it has lost against the round, its own is live. -/
def ExpiryKeeps (ctx : RoundContext) (d : RoundDriver) (id : ℕ) : Prop :=
  d.pendingMessage.isSome = true →
    (d.pendingRoundId = some id →
      (∀ c, d.collectors.lookup id = some c → d.CanRetry ctx c.participants) ∨
        (d.removeCollector id).Waiting d.retryAfterPeer) ∧
    (d.pendingRoundId ≠ some id → d.retryAfterPeer = some id → d.Waiting d.pendingRoundId)

/-- No expiry in the list orphans the message. -/
def ExpiriesKeep (prim : Primitives) (env : CallEnv) (ctx : RoundContext) :
    RoundDriver → List ℕ → Prop
  | _, [] => True
  | d, id :: ids =>
    d.ExpiryKeeps ctx id ∧ ExpiriesKeep prim env ctx (expireRound prim env ctx d id) ids

/-- The announced round does not orphan the message: we can take part in a round that wins against
our own. -/
def StartKeeps (ctx : RoundContext) (d : RoundDriver) (roundId : ℕ) (leaderId : String)
    (participants : List String) : Prop :=
  d.pendingMessage.isSome = true → d.pendingRoundId = some roundId → leaderId < ctx.myUid →
    CanTakePart ctx participants

/-- The share does not orphan the message: if it completes our own round without a text, or the
round that we have lost against, the message can be retried or waits for another round. -/
def ShareKeeps (prim : Primitives) (env : CallEnv) (ctx : RoundContext) (d : RoundDriver)
    (channel : String) (roundId : ℕ) (peerUid : String) (share : Bytes) : Prop :=
  ∀ c c₁, d.collectors.lookup roundId = some c → c.submitShare peerUid share = .ok c₁ →
    (broadcastOwnShare env d channel roundId c₁ ctx).2.1.isComplete = true →
    d.pendingMessage.isSome = true →
      (d.pendingRoundId = some roundId →
        extraction prim d channel roundId (broadcastOwnShare env d channel roundId c₁ ctx).2.1 =
          [] →
        d.CanRetry ctx c.participants ∨ (d.removeCollector roundId).Waiting d.retryAfterPeer) ∧
      (d.pendingRoundId ≠ some roundId → d.retryAfterPeer = some roundId →
        d.CanRetry ctx c.participants ∨ d.Waiting d.pendingRoundId)

/-- The call does not orphan the message. -/
def KeepsMessage (prim : Primitives) (d : RoundDriver) (input : DriverInput) : Prop :=
  match input.call with
  | .handle msg =>
    d.ExpiriesKeep prim input.env input.ctx (d.expiredRounds input.env) ∧
      let d := dropExpired prim input.env input.ctx d
      match msg with
      | .dcRoundStart _ roundId leaderId participants _ _ =>
        d.StartKeeps input.ctx roundId leaderId participants
      | .dcRoundShare channel roundId peerUid share signature =>
        shareAdmitted prim input.ctx channel roundId peerUid share signature = true →
          d.ShareKeeps prim input.env input.ctx channel roundId peerUid share
      | _ => True
  | _ => True

/-- The states of runs whose calls do not orphan the message. -/
inductive ReachableKeeping (prim : Primitives) : RoundDriver → Prop
  | new : ReachableKeeping prim RoundDriver.new
  | call {d : RoundDriver} (input : DriverInput) : ReachableKeeping prim d →
      d.KeepsMessage prim input → ReachableKeeping prim (d.call prim input).1

/-! ## What holds in every run -/

/-- A queued message is a text that fits in a round, and a round has participants. -/
structure Sound (d : RoundDriver) : Prop where
  fits : ∀ msg, d.pendingMessage = some msg →
    ∃ text, msg = asBytes text ∧ (asBytes text).length + 36 ≤ channelPayloadLen
  participants_ne : ∀ id c, d.collectors.lookup id = some c → c.participants ≠ []

/-- A new driver has neither a queued text nor a round. -/
theorem sound_new : RoundDriver.new.Sound where
  fits msg h := by simp [new] at h
  participants_ne id c h := by simp [new] at h

/-- Dropping the message or collectors, and changing anything else. -/
theorem Sound.of_le (h : d.Sound)
    (hmsg : d'.pendingMessage = d.pendingMessage ∨ d'.pendingMessage = none)
    (hcollectors : ∀ id c, d'.collectors.lookup id = some c → d.collectors.lookup id = some c) :
    d'.Sound := by
  refine ⟨fun msg hsome => ?_, fun id c hc => h.participants_ne id c (hcollectors id c hc)⟩
  obtain heq | hnone := hmsg
  · exact h.fits msg (heq ▸ hsome)
  · rw [hnone] at hsome
    cases hsome

/-- A collector of a round with participants is stored. -/
theorem Sound.storeCollector (h : d.Sound) (id : ℕ) {c : RoundCollector}
    (hc : c.participants ≠ []) : (d.storeCollector id c).Sound := by
  refine ⟨h.fits, fun id' c' hc' => ?_⟩
  obtain ⟨-, rfl⟩ | hc' := lookup_storeCollector hc'
  · exact hc
  · exact h.participants_ne id' c' hc'

/-- A new collector has the participants of its round. -/
theorem dedup_ne_nil_of_mem {participants : List String} {uid : String}
    (h : uid ∈ participants) : participants.dedup ≠ [] :=
  List.ne_nil_of_mem (List.mem_dedup.mpr h)

/-- A round that has begun has its collector. -/
theorem Sound.begun (h : d.Sound) {channel text : String} {participants : List String}
    {share : Bytes} (hb : Begun prim env ctx d d' channel text participants share) : d'.Sound := by
  rw [hb.state_eq]
  refine ⟨?_, fun id c hc => ?_⟩
  · rintro msg hmsg
    exact ⟨text, (Option.some.inj hmsg).symm, hb.fits⟩
  · obtain ⟨-, rfl⟩ | hc := lookup_storeCollector (d := d) hc
    · exact dedup_ne_nil_of_mem hb.mem
    · exact h.participants_ne id c hc

/-- A retry begins a round, or drops the text. -/
theorem Sound.retryPending (h : d.Sound) (channel : String) (participants : List String) :
    (retryPending prim env d channel participants ctx).Sound := by
  refine retryPending_induct h ?_ ?_ ?_ ?_
  · exact fun d hd => hd.of_le (Or.inr rfl) fun _ _ hc => hc
  · exact fun d n hd => hd.of_le (Or.inl rfl) fun _ _ hc => hc
  · exact fun d hd => hd.of_le (Or.inl rfl) fun _ _ hc => hc
  · exact fun d d₁ msg share hd _ hb => (hd.begun hb).of_le (Or.inl rfl) fun _ _ hc => hc

/-- A collector is removed. -/
theorem Sound.removeCollector (h : d.Sound) (id : ℕ) : (d.removeCollector id).Sound :=
  h.of_le (Or.inl rfl) fun _ _ hc => lookup_removeCollector hc

/-- The pending round is given up. -/
theorem Sound.clearPending (h : d.Sound) : d.clearPending.Sound :=
  h.of_le (Or.inl rfl) fun _ _ hc => hc

/-- An expired round is given up or retried. -/
theorem Sound.expireRound (h : d.Sound) (id : ℕ) : (expireRound prim env ctx d id).Sound := by
  rcases expireRound_cases id rfl with ⟨-, heq⟩ | ⟨-, heq⟩ | ⟨c, -, -, heq⟩
  · rw [heq]
    exact h.removeCollector id
  · rw [heq]
    exact (h.removeCollector id).clearPending
  · rw [heq]
    exact (h.removeCollector id).clearPending.retryPending _ _

/-- Entering a round begins none of our own. -/
theorem Sound.entered (h : d.Sound) {roundId : ℕ} {leaderId : String}
    (hentered : Entered ctx d roundId leaderId d') : d'.Sound := by
  rcases hentered with hnext | ⟨hpending, -⟩
  · exact h.of_le (Or.inl rfl) fun _ _ hc => hc
  · refine (h.removeCollector roundId).of_le (Or.inl rfl) fun id c hc => ?_
    simpa [abortPendingRound, RoundDriver.removeCollector, hpending] using hc

/-- An announced round is refused, or entered and collected. -/
theorem Sound.onRoundStart (h : d.Sound) {channel : String} {roundId : ℕ} {leaderId : String}
    {participants : List String} {deadlineSecs payloadLen : ℕ} {action : RoundAction}
    (hstart : onRoundStart prim env d channel roundId leaderId participants deadlineSecs payloadLen
      ctx = (d', action)) : d'.Sound := by
  rcases onRoundStart_cases hstart with ⟨rfl, -⟩ | ⟨d₁, hentered, ⟨rfl, -⟩ | ⟨share, hans⟩⟩
  · exact h
  · exact h.entered hentered
  · rw [hans.state_eq]
    refine (h.entered hentered).storeCollector roundId ?_
    rw [RoundCollector.participants_trySubmit]
    exact dedup_ne_nil_of_mem hans.mem

/-- Finishing a round drops its collector before anything is retried. -/
theorem Sound.finishRound (h : d.Sound) (channel : String) (roundId : ℕ) (c : RoundCollector) :
    (finishRound prim env d channel roundId c ctx).1.Sound := by
  refine finishRound_induct (fun emitted => ⟨fun _ => ?_, fun _ => ?_⟩) ?_ ?_ ?_
  · exact (h.removeCollector roundId).of_le (Or.inl rfl) fun _ _ hc => hc
  · exact (h.removeCollector roundId).of_le (Or.inl rfl) fun _ _ hc => hc
  · exact fun d hd => hd.of_le (Or.inr rfl) fun _ _ hc => hc
  · exact fun d hd => hd.of_le (Or.inl rfl) fun _ _ hc => hc
  · exact fun d hd => hd.retryPending _ _

/-- A stored share leaves the participants of its collector as they are. -/
theorem participants_of_broadcast {channel : String} {roundId : ℕ} {peerUid : String}
    {share : Bytes} {c c₁ c₂ : RoundCollector} {out : Outgoing}
    (hsubmit : c.submitShare peerUid share = .ok c₁)
    (hbroadcast : broadcastOwnShare env d channel roundId c₁ ctx = (d', c₂, out)) :
    c₂.participants = c.participants := by
  rw [← (RoundCollector.submitShare_frame hsubmit).2.2.1]
  rcases broadcastOwnShare_cases hbroadcast with ⟨-, rfl, -⟩ | ⟨s, sig, hrel⟩
  · rfl
  · rw [hrel.collector_eq, RoundCollector.participants_trySubmit]

/-- Releasing our share is recorded, and nothing else changes. -/
theorem broadcastOwnShare_state {channel : String} {roundId : ℕ} {c c' : RoundCollector}
    {out : Outgoing} (h : broadcastOwnShare env d channel roundId c ctx = (d', c', out)) :
    d' = { d with myShareBroadcast := d'.myShareBroadcast } := by
  rcases broadcastOwnShare_cases h with ⟨rfl, -, -⟩ | ⟨s, sig, hrel⟩
  · rfl
  · rw [hrel.state_eq]

/-- A share goes into a collector that is there. -/
theorem Sound.stored (h : d.Sound) {channel : String} {roundId : ℕ} {peerUid : String}
    {share : Bytes} {action : RoundAction} {c c₁ c₂ : RoundCollector} {d₁ : RoundDriver}
    {out : Outgoing}
    (hst : Stored prim env ctx d d' channel roundId peerUid share action c c₁ c₂ d₁ out) :
    (d₁.storeCollector roundId c₂).Sound := by
  have hd₁ : d₁.Sound := by
    rw [broadcastOwnShare_state hst.broadcast_eq]
    exact h.of_le (Or.inl rfl) fun _ _ hc => hc
  refine hd₁.storeCollector roundId ?_
  rw [participants_of_broadcast hst.submit_eq hst.broadcast_eq]
  exact h.participants_ne _ _ hst.lookup_eq

/-- A share is refused, or collected, and it may complete its round. -/
theorem Sound.onRoundShare (h : d.Sound) {channel : String} {roundId : ℕ} {peerUid : String}
    {share signature : Bytes} {action : RoundAction}
    (hshare : onRoundShare prim env d channel roundId peerUid share signature ctx =
      (d', action)) : d'.Sound := by
  rcases onRoundShare_cases hshare with ⟨rfl, -⟩ | ⟨c, c₁, c₂, d₁, out, hst⟩
  · exact h
  · have hresult := hst.result_eq
    split_ifs at hresult
    · cases hresult
      exact (h.stored hst).finishRound _ _ _
    · cases hresult
      exact h.stored hst

/-- Every message leaves the driver sound. -/
theorem Sound.respond (h : d.Sound) (msg : PeerMessage) :
    (respond prim env d msg ctx).1.Sound := by
  unfold RoundDriver.respond
  split
  · exact h.onRoundStart rfl
  · exact h.onRoundShare rfl
  · exact h

/-- The queued message is a text that fits, and every round has participants, in every run. -/
theorem Sound.call (h : d.Sound) (input : DriverInput) : (d.call prim input).1.Sound := by
  rcases d.call_cases prim input with
    ⟨channel, text, participants, -, hcall | hcall | ⟨d', share, hb, hcall⟩⟩ | ⟨msg, -, hcall⟩ |
      ⟨-, hcall⟩
  · rw [hcall]
    exact h
  · rw [hcall]
    exact h.of_le (Or.inl rfl) fun _ _ hc => hc
  · rw [hcall]
    exact h.begun hb
  · have hdrop : (dropExpired prim input.env input.ctx d).Sound :=
      dropExpired_induct h fun d id hd => hd.expireRound id
    rw [hcall, handle_eq]
    exact (hdrop.respond msg).of_le (Or.inl rfl) fun _ _ hc => hc
  · rw [hcall]
    exact h.of_le (Or.inl rfl) fun _ _ hc => hc

/-! ## What keeps a message from being orphaned -/

/-- The order of the participants does not matter. -/
theorem canTakePart_visit_iff (order : IterOrder String) {participants : List String} :
    CanTakePart ctx (order.visit participants) ↔ CanTakePart ctx participants := by
  simp only [CanTakePart, order.mem_visit, (order.perm participants).length_eq]

/-- The order of the participants does not matter for a retry. -/
theorem CanRetry.visit {participants : List String} (h : d.CanRetry ctx participants)
    (order : IterOrder String) : d.CanRetry ctx (order.visit participants) :=
  h.imp_right (canTakePart_visit_iff order).mpr

/-- A text that fits starts a round among participants we can take part with. -/
theorem initiate_begun {channel text : String} {participants : List String}
    (hfits : (asBytes text).length + 36 ≤ channelPayloadLen)
    (hpart : CanTakePart ctx participants) :
    ∃ d' share, Begun prim env ctx d d' channel text participants share ∧
      initiate prim env d channel text participants ctx =
        (d', .ok (announcement d ctx channel participants)) := by
  obtain ⟨htwo, hmem, hkeys⟩ := hpart
  obtain ⟨share, hshare⟩ : ∃ share, computeXorShareSecure prim (d.tracker.currentRoundId + 1)
      ctx.myUid participants (some (asBytes text)) channelPayloadLen ctx.edgeKeys = some share := by
    refine Option.isSome_iff_exists.mp (computeXorShareSecure_isSome.mpr ⟨htwo, hmem, hkeys, ?_⟩)
    intro msg hmsg
    rw [← Option.some.inj hmsg]
    omega
  refine ⟨_, share, ⟨hfits, htwo, hmem, hshare, rfl⟩, ?_⟩
  have hguard : ¬ (participants.length < 2 ∨ ctx.myUid ∉ participants) := by
    rw [not_or, not_lt, not_not]
    exact ⟨htwo, hmem⟩
  unfold initiate
  rw [if_neg (not_lt.mpr hfits), if_neg hguard]
  simp only [RoundTracker.nextRound, hshare]
  rfl

/-- A round is waited for as long as its collector is there. -/
theorem Waiting.mono {round : Option ℕ} (h : d.Waiting round)
    (hsub : ∀ id ∈ d.collectors, id ∈ d'.collectors) : d'.Waiting round := by
  obtain ⟨id, hround, hmem⟩ := h
  exact ⟨id, hround, hsub id hmem⟩

/-- Removing the collector of another round. -/
theorem Waiting.removeCollector {round : Option ℕ} {id : ℕ} (h : d.Waiting round)
    (hne : round ≠ some id) : (d.removeCollector id).Waiting round := by
  obtain ⟨id', rfl, hmem⟩ := h
  refine ⟨id', rfl, AList.mem_erase.mpr ⟨?_, hmem⟩⟩
  rintro rfl
  exact hne rfl

/-- A round whose collector is removed is not waited for. -/
theorem not_waiting_removeCollector (id : ℕ) : ¬ (d.removeCollector id).Waiting (some id) := by
  rintro ⟨id', heq, hmem⟩
  obtain rfl := Option.some.inj heq
  exact (AList.mem_erase.mp hmem).1 rfl

/-- Without a queued text there is nothing to hold. -/
theorem held_of_none (h : d.pendingMessage = none) : d.Held := by
  intro hsome
  simp [h] at hsome

/-- The queued message keeps waiting while its rounds stay. -/
theorem Held.mono (h : d.Held) (hmsg : d'.pendingMessage = d.pendingMessage)
    (hpending : d'.pendingRoundId = d.pendingRoundId)
    (hpeer : d'.retryAfterPeer = d.retryAfterPeer)
    (hsub : ∀ id ∈ d.collectors, id ∈ d'.collectors) : d'.Held := by
  intro hsome
  rw [hpending, hpeer]
  rw [hmsg] at hsome
  exact (h hsome).imp (fun hw => hw.mono hsub) fun hw => hw.mono hsub

/-- The message of a new round waits for it. -/
theorem Begun.waiting {channel text : String} {participants : List String} {share : Bytes}
    (hb : Begun prim env ctx d d' channel text participants share) :
    d'.Waiting d'.pendingRoundId := by
  rw [hb.state_eq]
  exact ⟨d.tracker.currentRoundId + 1, rfl, (AList.mem_insert _).mpr (Or.inl rfl)⟩

/-- A retry does not orphan a message that waits for a round. -/
theorem Held.retryPending (h : d.Held) (channel : String) (participants : List String) :
    (retryPending prim env d channel participants ctx).Held := by
  refine retryPending_induct h ?_ ?_ ?_ ?_
  · exact fun d _ => held_of_none rfl
  · exact fun d n hd => hd.mono rfl rfl rfl fun _ hid => hid
  · exact fun d hd => hd.mono rfl rfl rfl fun _ hid => hid
  · exact fun d d₁ msg share _ _ hb _ => Or.inl hb.waiting

/-- A retry below the limit starts a round among participants we can take part with. -/
theorem retryPending_begun (hs : d.Sound) {channel : String} {participants : List String}
    (hretries : d.retries < maxConflictRetries) (hsome : d.pendingMessage.isSome = true)
    (hpart : CanTakePart ctx participants) :
    ∃ d₁ text share,
      Begun prim env ctx { d with retries := d.retries + 1 } d₁ channel text participants share ∧
        RoundDriver.retryPending prim env d channel participants ctx = { d₁ with
          pendingOutgoing := d.pendingOutgoing ++ announcement d ctx channel participants } := by
  obtain ⟨msg, hmsg⟩ := Option.isSome_iff_exists.mp hsome
  obtain ⟨text, rfl, hfits⟩ := hs.fits msg hmsg
  obtain ⟨d₁, share, hb, hinit⟩ : ∃ d₁ share,
      Begun prim env ctx { d with retries := d.retries + 1 } d₁ channel text participants share ∧
        initiate prim env { d with retries := d.retries + 1 } channel text participants ctx =
          (d₁, .ok (announcement d ctx channel participants)) := initiate_begun hfits hpart
  refine ⟨d₁, text, share, hb, ?_⟩
  unfold RoundDriver.retryPending
  rw [if_neg (not_le.mpr hretries)]
  dsimp only
  split
  next hnone => simp [hnone] at hmsg
  next msg hmsg' =>
    obtain rfl := Option.some.inj (hmsg'.symm.trans hmsg)
    rw [fromUtf8Lossy_asBytes, hinit, hb.state_eq]
    rfl

/-- A retry does not make up a message. -/
theorem isSome_of_retryPending {channel : String} {participants : List String}
    (h : (retryPending prim env d channel participants ctx).pendingMessage.isSome = true) :
    d.pendingMessage.isSome = true := by
  obtain ⟨d', hd'⟩ : ∃ d', d' = RoundDriver.retryPending prim env d channel participants ctx :=
    ⟨_, rfl⟩
  rw [← hd'] at h
  rcases retryPending_cases channel participants hd' with
    rfl | rfl | rfl | ⟨msg, share, d₁, hmsg, -, -⟩
  · simp at h
  · exact h
  · exact h
  · simp [hmsg]

/-- A retry that is possible drops the message or starts a round for it. -/
theorem retryPending_waiting (hs : d.Sound) {channel : String} {participants : List String}
    (hcan : d.CanRetry ctx participants)
    (hsome : (retryPending prim env d channel participants ctx).pendingMessage.isSome = true) :
    (retryPending prim env d channel participants ctx).Waiting
      (retryPending prim env d channel participants ctx).pendingRoundId := by
  by_cases hretries : maxConflictRetries ≤ d.retries
  · simp [RoundDriver.retryPending, hretries] at hsome
  · obtain ⟨d₁, text, share, hb, heq⟩ := @retryPending_begun prim env ctx d hs channel participants
      (not_le.mp hretries) (isSome_of_retryPending hsome) (hcan.resolve_left hretries)
    rw [heq]
    exact hb.waiting

/-- A retry keeps a message that can be retried or waits for the round it has lost against. -/
theorem retryPending_held (hs : d.Sound) {channel : String} {participants : List String}
    (hkeep : d.pendingMessage.isSome = true →
      d.CanRetry ctx participants ∨ d.Waiting d.retryAfterPeer) :
    (retryPending prim env d channel participants ctx).Held := by
  intro hsome
  rcases hkeep (isSome_of_retryPending hsome) with hcan | hwait
  · exact Or.inl (retryPending_waiting hs hcan hsome)
  · have hheld : d.Held := fun _ => Or.inr hwait
    exact hheld.retryPending _ _ hsome

/-- A round of another member expires without effect on our text. -/
theorem expireRound_other {id : ℕ} (hother : d.pendingRoundId ≠ some id) :
    expireRound prim env ctx d id = d.removeCollector id := by
  simp only [RoundDriver.expireRound, hother, if_false]
  rfl

/-- Our round is given up if it has no collector any more. -/
theorem expireRound_gone {id : ℕ} (hmine : d.pendingRoundId = some id)
    (hgone : d.collectors.lookup id = none) :
    expireRound prim env ctx d id = (d.removeCollector id).clearPending := by
  simp only [RoundDriver.expireRound, hmine, hgone, if_true, List.isEmpty_nil]
  rfl

/-- Our own round expires: its collector is dropped and the message retried among its
participants. -/
theorem expireRound_mine (hs : d.Sound) {id : ℕ} {c : RoundCollector}
    (hmine : d.pendingRoundId = some id) (hc : d.collectors.lookup id = some c) :
    expireRound prim env ctx d id = RoundDriver.retryPending prim env
      (d.removeCollector id).clearPending c.channel (env.uidOrder.visit c.participants) ctx := by
  have hne : (env.uidOrder.visit c.participants).isEmpty = false := by
    rw [(env.uidOrder.perm c.participants).isEmpty_eq, List.isEmpty_eq_false_iff]
    exact hs.participants_ne id c hc
  simp only [RoundDriver.expireRound, hmine, hc, hne, if_true, Bool.false_eq_true, if_false]
  rfl

/-- The message survives the expiry of its own round: it is retried, or waits for another one. -/
theorem Held.expireRound_mine (h : d.Held) (hs : d.Sound) {id : ℕ}
    (hmine : d.pendingRoundId = some id) (hkeep : d.ExpiryKeeps ctx id) :
    (expireRound prim env ctx d id).Held := by
  cases hc : d.collectors.lookup id with
  | some c =>
    rw [RoundDriver.expireRound_mine hs hmine hc]
    refine retryPending_held (hs.removeCollector id).clearPending fun hsome => ?_
    exact ((hkeep hsome).1 hmine).imp_left fun hcan => (hcan c hc).visit _
  | none =>
    rw [expireRound_gone hmine hc]
    -- the round had no collector, so the message waits for the one it has lost against
    have hnot : ¬ d.Waiting (some id) := by
      rintro ⟨id', heq, hmem⟩
      obtain rfl := Option.some.inj heq
      exact absurd hmem (AList.lookup_eq_none.mp hc)
    intro hsome
    obtain hwait | hwait := h hsome
    · exact absurd (hmine ▸ hwait) hnot
    · refine Or.inr (Waiting.removeCollector hwait fun hpeer => ?_)
      exact hnot (hpeer ▸ hwait)

/-- An expiry that keeps the message does not orphan it. -/
theorem Held.expireRound (h : d.Held) (hs : d.Sound) {id : ℕ} (hkeep : d.ExpiryKeeps ctx id) :
    (expireRound prim env ctx d id).Held := by
  by_cases hmine : d.pendingRoundId = some id
  · exact h.expireRound_mine hs hmine hkeep
  · rw [expireRound_other hmine]
    intro hsome
    by_cases hlost : d.retryAfterPeer = some id
    · exact Or.inl (((hkeep hsome).2 hmine hlost).removeCollector hmine)
    · exact (h hsome).imp (fun hw => hw.removeCollector hmine) fun hw => hw.removeCollector hlost

/-- The text is held over expiries that keep it. -/
theorem Held.dropExpired (h : d.Held) (hs : d.Sound)
    (hkeep : d.ExpiriesKeep prim env ctx (d.expiredRounds env)) :
    (dropExpired prim env ctx d).Held := by
  unfold RoundDriver.dropExpired
  generalize d.expiredRounds env = ids at hkeep
  induction ids generalizing d with
  | nil => exact h
  | cons id ids ih => exact ih (h.expireRound hs hkeep.1) (hs.expireRound id) hkeep.2

section Start

variable {channel : String} {roundId : ℕ} {leaderId : String} {participants : List String}
  {deadlineSecs payloadLen : ℕ}

/-- Taking part in a round adds a collector. -/
theorem Held.participate (h : d.Held) :
    (participate prim env d channel roundId participants deadlineSecs payloadLen ctx).1.Held := by
  cases hres : RoundDriver.participate prim env d channel roundId participants deadlineSecs
      payloadLen ctx with
  | mk d' action =>
    rcases participate_cases hres with ⟨rfl, -⟩ | ⟨share, hans⟩
    · exact h
    · rw [hans.state_eq]
      exact h.mono rfl rfl rfl fun _ hid => (AList.mem_insert _).mpr (Or.inr hid)

/-- A round we can take part in is answered. -/
theorem participate_answered (hpart : CanTakePart ctx participants) :
    ∃ share, Answered prim env ctx d
      (participate prim env d channel roundId participants deadlineSecs payloadLen ctx).1
      channel roundId participants deadlineSecs payloadLen share
      (participate prim env d channel roundId participants deadlineSecs payloadLen ctx).2 := by
  obtain ⟨htwo, hmem, hkeys⟩ := hpart
  obtain ⟨share, hshare⟩ : ∃ share, computeXorShareSecure prim roundId ctx.myUid participants none
      payloadLen ctx.edgeKeys = some share :=
    Option.isSome_iff_exists.mp (computeXorShareSecure_isSome.mpr ⟨htwo, hmem, hkeys, by simp⟩)
  unfold RoundDriver.participate
  rw [if_neg (not_not.mpr hmem), hshare]
  exact ⟨share, hmem, hshare, rfl, rfl⟩

/-- A round we can take part in gets a collector. -/
theorem mem_collectors_participate (hpart : CanTakePart ctx participants) :
    roundId ∈ (participate prim env d channel roundId participants deadlineSecs payloadLen
      ctx).1.collectors := by
  obtain ⟨share, hans⟩ := @participate_answered prim env ctx d channel roundId participants
    deadlineSecs payloadLen hpart
  rw [hans.state_eq]
  exact (AList.mem_insert _).mpr (Or.inl rfl)

/-- The frame of `participate`: it writes the collectors only. -/
theorem participate_frame :
    let d' := (participate prim env d channel roundId participants deadlineSecs payloadLen ctx).1
    d' = { d with collectors := d'.collectors } := by
  cases hres : participate prim env d channel roundId participants deadlineSecs
      payloadLen ctx with
  | mk d' action =>
    rcases participate_cases hres with ⟨rfl, -⟩ | ⟨share, hans⟩
    · rfl
    · rw [hans.state_eq]
      rfl

/-- An announced round that keeps the message does not orphan it. -/
theorem Held.onRoundStart (h : d.Held)
    (hkeep : d.StartKeeps ctx roundId leaderId participants) :
    (onRoundStart prim env d channel roundId leaderId participants deadlineSecs payloadLen
      ctx).1.Held := by
  unfold RoundDriver.onRoundStart RoundTracker.markSeen
  by_cases hnext : roundId = d.tracker.currentRoundId + 1
  · rw [if_pos hnext]
    have hheld : Held { d with tracker := { d.tracker with currentRoundId := roundId } } :=
      h.mono rfl rfl rfl fun _ hid => hid
    exact hheld.participate
  · rw [if_neg hnext]
    dsimp only
    split_ifs with hlost
    -- our own round is given up; the message waits for the one it has lost against
    · intro hsome
      rw [participate_frame] at hsome ⊢
      exact Or.inr ⟨roundId, rfl,
        mem_collectors_participate (hkeep hsome hlost.1.1 hlost.2)⟩
    · exact h

end Start

section Share

variable {channel : String} {roundId : ℕ} {participants : List String}

/-- A retry does not forget the lost conflict. -/
theorem retryAfterPeer_retryPending :
    (retryPending prim env d channel participants ctx).retryAfterPeer = d.retryAfterPeer := by
  refine retryPending_induct (I := fun d' => d'.retryAfterPeer = d.retryAfterPeer) rfl
    (fun _ h => h) (fun _ _ h => h) (fun _ h => h) fun d' d₁ msg share h _ hb => ?_
  rw [hb.state_eq]
  exact h

/-- The retry after a lost conflict keeps a message that can be retried or waits for its round. -/
theorem retryAfter_held (hs : d.Sound) (hother : d.retryAfterPeer ≠ some roundId → d.Held)
    (hlost : d.retryAfterPeer = some roundId → d.pendingMessage.isSome = true →
      d.CanRetry ctx participants ∨ d.Waiting d.pendingRoundId) :
    (retryAfter prim env d channel roundId participants ctx).Held := by
  unfold retryAfter
  dsimp only
  split_ifs with hpeer hsome
  · have hs' : Sound { d with retryAfterPeer := none } := hs.of_le (Or.inl rfl) fun _ _ hc => hc
    rcases hlost hpeer hsome with hcan | hwait
    · exact fun hsome' => Or.inl (retryPending_waiting hs' hcan hsome')
    · have hheld : Held { d with retryAfterPeer := none } := fun _ => Or.inl hwait
      exact hheld.retryPending _ _
  · exact fun hsome' => absurd hsome' hsome
  · exact hother hpeer

/-- What a finished round does to the state: the message is settled, then retried if it had lost
against the round. -/
theorem finishRound_fst (prim : Primitives) (env : CallEnv) (ctx : RoundContext) (d : RoundDriver)
    (channel : String) (roundId : ℕ) (c : RoundCollector) :
    ∃ emitted, (finishRound prim env d channel roundId c ctx).1 =
      retryAfter prim env (settleOwn prim env { d.removeCollector roundId with emitted := emitted }
        channel roundId (!(extraction prim d channel roundId c).isEmpty)
        (env.uidOrder.visit c.participants) ctx) channel roundId
        (env.uidOrder.visit c.participants) ctx := ⟨_, rfl⟩

/-- A finished round does not orphan the message, if the message can be retried or waits for
another round whenever the round ends without having delivered it. -/
theorem finishRound_held (hs : d.Sound) (h : d.Held) {c : RoundCollector}
    (hmine : d.pendingMessage.isSome = true → d.pendingRoundId = some roundId →
      extraction prim d channel roundId c = [] →
        d.CanRetry ctx c.participants ∨ (d.removeCollector roundId).Waiting d.retryAfterPeer)
    (hlost : d.pendingMessage.isSome = true → d.pendingRoundId ≠ some roundId →
      d.retryAfterPeer = some roundId →
        d.CanRetry ctx c.participants ∨ d.Waiting d.pendingRoundId) :
    (finishRound prim env d channel roundId c ctx).1.Held := by
  obtain ⟨emitted, heq⟩ := finishRound_fst prim env ctx d channel roundId c
  rw [heq]
  have hs' : Sound { d.removeCollector roundId with emitted := emitted } :=
    (hs.removeCollector roundId).of_le (Or.inl rfl) fun _ _ hc => hc
  unfold settleOwn
  split_ifs with hown htext
  -- our round has delivered a text: the message is done
  · refine retryAfter_held ?_ (fun _ => held_of_none rfl) fun _ hsome => ?_
    · exact hs'.of_le (Or.inr rfl) fun _ _ hc => hc
    · simp at hsome
  -- our round has not: the message is retried
  · have hnone : extraction prim d channel roundId c = [] := by simpa using htext
    refine retryAfter_held (hs'.clearPending.retryPending _ _) (fun _ => ?_) fun hpeer hsome => ?_
    · refine retryPending_held hs'.clearPending fun hsome => ?_
      exact (hmine hsome hown hnone).imp_left fun hcan => hcan.visit _
    -- the conflict was lost against this very round, so there is no other one to wait for
    · rw [retryAfterPeer_retryPending] at hpeer
      have hgone : ¬ (d.removeCollector roundId).Waiting d.retryAfterPeer :=
        fun hwait => not_waiting_removeCollector roundId (hpeer ▸ hwait)
      have hsome' := isSome_of_retryPending hsome
      have hcan := (hmine hsome' hown hnone).resolve_right hgone
      exact Or.inr (retryPending_waiting hs'.clearPending (hcan.visit _) hsome)
  -- the round was not ours, so only a conflict we have lost against it matters
  · refine retryAfter_held hs' (fun hpeer hsome => ?_) fun hpeer hsome => ?_
    · exact (h hsome).imp (fun hw => hw.removeCollector hown) fun hw => hw.removeCollector hpeer
    · rcases hlost hsome hown hpeer with hcan | hwait
      · exact Or.inl (hcan.visit _)
      · exact Or.inr (hwait.removeCollector hown)

/-- A share that keeps the message does not orphan it. -/
theorem Held.onRoundShare (h : d.Held) (hs : d.Sound) {peerUid : String} {share signature : Bytes}
    {action : RoundAction}
    (hkeep : shareAdmitted prim ctx channel roundId peerUid share signature = true →
      d.ShareKeeps prim env ctx channel roundId peerUid share)
    (hshare : onRoundShare prim env d channel roundId peerUid share signature ctx =
      (d', action)) : d'.Held := by
  by_cases hadmitted : shareAdmitted prim ctx channel roundId peerUid share signature = true
  · rcases onRoundShare_cases hshare with ⟨rfl, -⟩ | ⟨c, c₁, c₂, d₁, out, hst⟩
    · exact h
    · have hsound := hs.stored hst
      have hkeep := hkeep hadmitted c c₁ hst.lookup_eq hst.submit_eq
      rw [hst.broadcast_eq] at hkeep
      have hstate := broadcastOwnShare_state hst.broadcast_eq
      have hparticipants := participants_of_broadcast hst.submit_eq hst.broadcast_eq
      have hresult := hst.result_eq
      generalize d₁.myShareBroadcast = sent at hstate
      subst hstate
      have hheld : (RoundDriver.storeCollector { d with myShareBroadcast := sent } roundId
          c₂).Held := h.mono rfl rfl rfl fun _ hid => (AList.mem_insert _).mpr (Or.inr hid)
      split_ifs at hresult with hcomplete
      -- the message can be orphaned only when the round ends
      · cases hresult
        refine finishRound_held hsound hheld (fun hsome hown hnone => ?_) fun hsome hown hpeer => ?_
        · rw [hparticipants]
          refine ((hkeep hcomplete hsome).1 hown hnone).imp_right fun hwait => ?_
          refine hwait.mono fun id hid => ?_
          obtain ⟨hne, hmem⟩ := AList.mem_erase.mp hid
          exact AList.mem_erase.mpr ⟨hne, (AList.mem_insert _).mpr (Or.inr hmem)⟩
        · rw [hparticipants]
          refine ((hkeep hcomplete hsome).2 hown hpeer).imp_right fun hwait => ?_
          exact hwait.mono fun _ hid => (AList.mem_insert _).mpr (Or.inr hid)
      · cases hresult
        exact hheld
  · unfold RoundDriver.onRoundShare at hshare
    rw [if_pos (Bool.eq_false_of_not_eq_true hadmitted)] at hshare
    cases hshare
    exact h

end Share

/-- A call that keeps the message does not orphan it. -/
theorem Held.call (h : d.Held) (hs : d.Sound) {input : DriverInput}
    (hkeep : d.KeepsMessage prim input) : (d.call prim input).1.Held := by
  unfold KeepsMessage at hkeep
  rcases d.call_cases prim input with
    ⟨channel, text, participants, -, hcall | hcall | ⟨d', share, hb, hcall⟩⟩ |
      ⟨msg, hinput, hcall⟩ | ⟨-, hcall⟩
  · rw [hcall]
    exact h
  · rw [hcall]
    exact h.mono rfl rfl rfl fun _ hid => hid
  · rw [hcall]
    exact fun _ => Or.inl hb.waiting
  -- a message: first the expired rounds are dropped, then it is answered
  · rw [hinput] at hkeep
    obtain ⟨hexpiries, hmsg⟩ := hkeep
    have hdrop := h.dropExpired hs hexpiries
    have hsdrop : (RoundDriver.dropExpired prim input.env input.ctx d).Sound :=
      dropExpired_induct hs fun d id hd => hd.expireRound id
    have hrespond : (respond prim input.env (RoundDriver.dropExpired prim input.env input.ctx d)
        msg input.ctx).1.Held := by
      unfold respond
      split
      · exact hdrop.onRoundStart hmsg
      · exact hdrop.onRoundShare hsdrop hmsg rfl
      · exact hdrop
    rw [hcall, handle_eq]
    exact hrespond.mono rfl rfl rfl fun _ hid => hid
  · rw [hcall]
    exact h.mono rfl rfl rfl fun _ hid => hid

/-- A queued message is never orphaned in a run whose calls keep it: in every state of such a run,
a message that is pending waits for its own round, or for the one it has lost a conflict against,
and that round has a live collector. -/
theorem held_of_reachable (h : ReachableKeeping prim d) : d.Held := by
  suffices d.Sound ∧ d.Held from this.2
  induction h with
  | new => exact ⟨sound_new, held_of_none rfl⟩
  | call input _ hkeep ih => exact ⟨ih.1.call input, ih.2.call ih.1 hkeep⟩

/-! ## A conflict with a round that we cannot take part in -/

def aliceCtx : RoundContext where
  myUid := "alice"
  signingKey := .replicate 32 1
  edgeKeys := HashMap.ofPairs [("bob", .replicate 32 2), ("Aaron", .replicate 32 3)]
  knownKeys := ∅

/-- Alice initiates a round with Bob. -/
def aliceInitiates : DriverInput := ⟨.still, aliceCtx, .initiate "#g" "hi" ["alice", "bob"]⟩

/-- Aaron has initiated a round of the same id, and wins. -/
def aaronAnnounces (participants : List String) : DriverInput :=
  ⟨.still, aliceCtx, .handle (.dcRoundStart "#g" 1 "Aaron" participants 30 4096)⟩

/-- Alice's state after she has initiated her round, whatever her share is. -/
theorem call_aliceInitiates : ∃ share, Begun .const .still aliceCtx RoundDriver.new
    (RoundDriver.new.call .const aliceInitiates).1 "#g" "hi" ["alice", "bob"] share := by
  obtain ⟨d, share, hb, hinit⟩ : ∃ d share,
      Begun .const .still aliceCtx RoundDriver.new d "#g" "hi" ["alice", "bob"] share ∧
        initiate .const .still RoundDriver.new "#g" "hi" ["alice", "bob"] aliceCtx =
          (d, .ok _) := initiate_begun (by decide) ⟨by decide, by decide, by decide⟩
  refine ⟨share, ?_⟩
  simp only [RoundDriver.call, aliceInitiates, hinit]
  exact hb

/-- Alice takes part in Aaron's round, and her message waits for it. -/
theorem held_of_reachable_lost_conflict :
    ReachableKeeping .const
        (RoundDriver.new.run .const [aliceInitiates, aaronAnnounces ["Aaron", "alice"]]).1 ∧
      (RoundDriver.new.run .const [aliceInitiates, aaronAnnounces ["Aaron", "alice"]]).1.Held := by
  have h : ReachableKeeping .const
      (RoundDriver.new.run .const [aliceInitiates, aaronAnnounces ["Aaron", "alice"]]).1 := by
    have hinitiated : ReachableKeeping .const (RoundDriver.new.call .const aliceInitiates).1 :=
      .call aliceInitiates .new trivial
    refine .call (aaronAnnounces ["Aaron", "alice"]) hinitiated
      ⟨?_, fun _ _ _ => ⟨by decide, by decide, by decide⟩⟩
    obtain ⟨share, hb⟩ := call_aliceInitiates
    rw [hb.state_eq]
    -- no round has expired
    exact trivial
  exact ⟨h, held_of_reachable h⟩

/-- Aaron's round has no place for Alice: her own round is given up, and her message waits for a
round that she has no collector for. -/
theorem message_orphaned :
    ¬ (RoundDriver.new.run .const [aliceInitiates, aaronAnnounces ["Aaron", "bob"]]).1.Held := by
  have hrun : (RoundDriver.new.run .const [aliceInitiates, aaronAnnounces ["Aaron", "bob"]]).1 =
      ((RoundDriver.new.call .const aliceInitiates).1.call .const
        (aaronAnnounces ["Aaron", "bob"])).1 := rfl
  obtain ⟨share, hb⟩ := call_aliceInitiates
  rw [hrun, hb.state_eq]
  intro h
  obtain ⟨id, hid, -⟩ | ⟨id, -, hmem⟩ := h rfl
  · cases hid
  · exact List.not_mem_nil hmem

end RoundDriver

end ChronoShift
