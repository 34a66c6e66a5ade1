import ChronoShift.DcNet.RoundDriver

/-!
# What a driver call can do

One inversion lemma for each operation of `RoundDriver`, so that invariants are proved by a case
analysis of outcomes and never unfold the operations again.

* `initiate_cases`: refused, refused with the counter advanced, or a new round of our own;
* `call_cases`: one of these, a message, or a drain of the buffer;
* `retryPending_cases`, `expireRound_cases`: the outcomes of a retry and of an expiry;
* `participate_cases`, `onRoundStart_cases`: a neutral share, or nothing;
* `broadcastOwnShare_cases`, `finishRound_cases`, `onRoundShare_cases`: the outcomes of a share.
-/

namespace ChronoShift

open ToMathlib

namespace RoundDriver

variable {prim : Primitives} {env : CallEnv} {ctx : RoundContext} {d d' : RoundDriver}

theorem mem_toOthers {myUid : String} {participants : List String} {msg : PeerMessage}
    {p : String × PeerMessage} :
    p ∈ toOthers myUid participants msg ↔
      p.1 ∈ participants ∧ p.1 ≠ myUid ∧ p.2 = msg := by
  obtain ⟨uid, m⟩ := p
  simp only [toOthers, List.mem_map, List.mem_filter, decide_eq_true_eq, Prod.mk.injEq]
  constructor
  · rintro ⟨u, ⟨hu, hne⟩, rfl, rfl⟩
    exact ⟨hu, hne, rfl⟩
  · rintro ⟨hu, hne, rfl⟩
    exact ⟨uid, ⟨hu, hne⟩, rfl, rfl⟩

/-- The driver with its counter advanced. -/
def advance (d : RoundDriver) : RoundDriver := { d with tracker := d.tracker.nextRound }

/-- Our own round `roundId`, set up by `initiate` for `text` among `participants`. -/
structure Begun (prim : Primitives) (env : CallEnv) (ctx : RoundContext) (d d' : RoundDriver)
    (channel text : String) (participants : List String) (share : Bytes) : Prop where
  fits : (asBytes text).length + 36 ≤ channelPayloadLen
  two_le : 2 ≤ participants.length
  mem : ctx.myUid ∈ participants
  share_eq : computeXorShareSecure prim (d.tracker.currentRoundId + 1) ctx.myUid participants
    (some (asBytes text)) channelPayloadLen ctx.edgeKeys = some share
  state_eq : d' = d.advance.beginRound (d.tracker.currentRoundId + 1)
    (RoundCollector.new channel (d.tracker.currentRoundId + 1) participants
      channelRoundDeadlineSecs channelPayloadLen env.now)
    (asBytes text) share
    (signShare prim ctx.signingKey channel (d.tracker.currentRoundId + 1) share)

/-- The announcement of the round after the current one. -/
def announcement (d : RoundDriver) (ctx : RoundContext) (channel : String)
    (participants : List String) : Outgoing :=
  toOthers ctx.myUid participants (.dcRoundStart channel (d.tracker.currentRoundId + 1) ctx.myUid
    participants channelRoundDeadlineSecs channelPayloadLen)

/-- `initiate` is refused, is refused after the counter has advanced, or sets up a round. -/
theorem initiate_cases {channel text : String} {participants : List String}
    {res : Except String Outgoing}
    (h : initiate prim env d channel text participants ctx = (d', res)) :
    (d' = d ∧ ∃ e, res = .error e) ∨ (d' = d.advance ∧ ∃ e, res = .error e) ∨
      ∃ share, Begun prim env ctx d d' channel text participants share ∧
        res = .ok (announcement d ctx channel participants) := by
  unfold initiate at h
  split_ifs at h with hlong hpart
  · cases h
    exact Or.inl ⟨rfl, _, rfl⟩
  · cases h
    exact Or.inl ⟨rfl, _, rfl⟩
  · rw [not_or, not_lt, not_not] at hpart
    dsimp only at h
    split at h
    -- an edge key is missing: the counter has advanced all the same
    · cases h
      exact Or.inr (Or.inl ⟨rfl, _, rfl⟩)
    next share hshare =>
      cases h
      exact Or.inr (Or.inr ⟨share, ⟨by omega, hpart.1, hpart.2, hshare, rfl⟩, rfl⟩)

/-- A call is an `initiate` with one of its outcomes, a message, or a drain of the buffer. -/
theorem call_cases (prim : Primitives) (d : RoundDriver) (input : DriverInput) :
    (∃ channel text participants, input.call = .initiate channel text participants ∧
      (d.call prim input = (d, {}) ∨ d.call prim input = (d.advance, {}) ∨
        ∃ d' share, Begun prim input.env input.ctx d d' channel text participants share ∧
          d.call prim input =
            (d', { outgoing := announcement d input.ctx channel participants }))) ∨
    (∃ msg, input.call = .handle msg ∧
      d.call prim input = handle prim input.env d msg input.ctx) ∨
    input.call = .drainPendingOutgoing ∧ d.call prim input =
      ({ d with pendingOutgoing := [] }, { outgoing := d.pendingOutgoing }) := by
  unfold call
  split
  next channel text participants hinput =>
    refine Or.inl ⟨channel, text, participants, hinput, ?_⟩
    cases hinit : initiate prim input.env d channel text participants input.ctx with
    | mk d' res =>
      rcases initiate_cases hinit with ⟨rfl, e, rfl⟩ | ⟨rfl, e, rfl⟩ | ⟨share, hb, rfl⟩
      · exact Or.inl rfl
      · exact Or.inr (Or.inl rfl)
      · exact Or.inr (Or.inr ⟨d', share, hb, rfl⟩)
  next msg hinput => exact Or.inr (Or.inl ⟨msg, hinput, rfl⟩)
  next hinput => exact Or.inr (Or.inr ⟨hinput, rfl⟩)

/-- The outcomes of a retry: the message is dropped, there is none, the new attempt is refused,
or a new round is set up and its announcement buffered. -/
theorem retryPending_cases (channel : String) (participants : List String) :
    (d' = retryPending prim env d channel participants ctx) →
    d' = { d with pendingMessage := none } ∨ d' = { d with retries := d.retries + 1 } ∨
      d' = ({ d with retries := d.retries + 1 } : RoundDriver).advance ∨
      ∃ msg share d₁, d.pendingMessage = some msg ∧
        Begun prim env ctx { d with retries := d.retries + 1 } d₁ channel (fromUtf8Lossy msg)
          participants share ∧
        d' = { d₁ with pendingOutgoing :=
          d.pendingOutgoing ++ announcement d ctx channel participants } := by
  rintro rfl
  unfold retryPending
  split_ifs with hretries
  · exact Or.inl rfl
  · dsimp only
    split
    · exact Or.inr (Or.inl rfl)
    next msg hmsg =>
      cases hinit : initiate prim env { d with retries := d.retries + 1 } channel
          (fromUtf8Lossy msg) participants ctx with
      | mk d₁ res =>
        rcases initiate_cases hinit with ⟨rfl, e, rfl⟩ | ⟨rfl, e, rfl⟩ | ⟨share, hbegun, rfl⟩
        · exact Or.inr (Or.inl rfl)
        · exact Or.inr (Or.inr (Or.inl rfl))
        -- setting up the round leaves the buffer as it is, so the announcement goes behind it
        · refine Or.inr (Or.inr (Or.inr ⟨msg, share, d₁, hmsg, hbegun, ?_⟩))
          rw [hbegun.state_eq]
          rfl

/-- An invariant that survives the outcomes of a retry survives the retry. -/
theorem retryPending_induct {I : RoundDriver → Prop} {channel : String}
    {participants : List String} (hd : I d)
    (hdrop : ∀ d, I d → I { d with pendingMessage := none })
    (hretries : ∀ d n, I d → I { d with retries := n })
    (hadvance : ∀ d, I d → I d.advance)
    (hbegun : ∀ d d₁ msg share, I d → d.pendingMessage = some msg →
      Begun prim env ctx d d₁ channel (fromUtf8Lossy msg) participants share →
      I { d₁ with pendingOutgoing :=
        d.pendingOutgoing ++ announcement d ctx channel participants }) :
    I (retryPending prim env d channel participants ctx) := by
  rcases retryPending_cases channel participants rfl with h | h | h | ⟨msg, share, d₁, hmsg, hb, h⟩
    <;> rw [h]
  · exact hdrop d hd
  · exact hretries d _ hd
  · exact hadvance _ (hretries d _ hd)
  · exact hbegun { d with retries := d.retries + 1 } d₁ msg share (hretries d _ hd) hmsg hb

/-- The driver with the collector of one round removed. -/
def removeCollector (d : RoundDriver) (id : ℕ) : RoundDriver :=
  { d with collectors := d.collectors.erase id }

/-- The driver with the collector of one round stored. -/
def storeCollector (d : RoundDriver) (id : ℕ) (c : RoundCollector) : RoundDriver :=
  { d with collectors := d.collectors.insert id c }

theorem lookup_removeCollector {id id' : ℕ} {c : RoundCollector}
    (h : (d.removeCollector id).collectors.lookup id' = some c) :
    d.collectors.lookup id' = some c := by
  change (d.collectors.erase id).lookup id' = some c at h
  rw [HashMap.lookup_erase_ite] at h
  split at h
  · simp at h
  · exact h

theorem lookup_storeCollector {id id' : ℕ} {c c' : RoundCollector}
    (h : (d.storeCollector id c).collectors.lookup id' = some c') :
    (id' = id ∧ c' = c) ∨ d.collectors.lookup id' = some c' := by
  change (d.collectors.insert id c).lookup id' = some c' at h
  rw [HashMap.lookup_insert_ite] at h
  split at h
  next heq => exact Or.inl ⟨heq, (Option.some.inj h).symm⟩
  · exact Or.inr h

/-- An expired round is dropped; if it was ours, our message may be retried among the
participants of the dropped collector. -/
theorem expireRound_cases (id : ℕ) :
    (d' = expireRound prim env ctx d id) →
    (d.pendingRoundId ≠ some id ∧ d' = d.removeCollector id) ∨
      (d.pendingRoundId = some id ∧ d' = (d.removeCollector id).clearPending) ∨
      ∃ c, d.pendingRoundId = some id ∧ d.collectors.lookup id = some c ∧
        d' = retryPending prim env (d.removeCollector id).clearPending c.channel
          (env.uidOrder.visit c.participants) ctx := by
  rintro rfl
  unfold expireRound
  dsimp only
  by_cases hmine : d.pendingRoundId = some id
  · rw [if_pos hmine]
    cases hc : d.collectors.lookup id with
    | none => exact Or.inr (Or.inl ⟨hmine, rfl⟩)
    | some c =>
      dsimp only
      split
      -- nobody to retry with
      · exact Or.inr (Or.inl ⟨hmine, rfl⟩)
      · exact Or.inr (Or.inr ⟨c, hmine, rfl, rfl⟩)
  · rw [if_neg hmine]
    exact Or.inl ⟨hmine, rfl⟩

/-- An invariant that survives the expiry of one round survives `dropExpired`. -/
theorem dropExpired_induct {I : RoundDriver → Prop} (hd : I d)
    (hstep : ∀ d id, I d → I (expireRound prim env ctx d id)) :
    I (dropExpired prim env ctx d) := by
  unfold dropExpired
  -- the expired rounds are listed before the loop, so the list is fixed while the state changes
  generalize d.expiredRounds env = ids
  induction ids generalizing d with
  | nil => exact hd
  | cons id ids ih => exact ih (hstep d id hd)

/-- The neutral answer to an announced round. -/
structure Answered (prim : Primitives) (env : CallEnv) (ctx : RoundContext) (d d' : RoundDriver)
    (channel : String) (roundId : ℕ) (participants : List String) (deadlineSecs payloadLen : ℕ)
    (share : Bytes) (action : RoundAction) : Prop where
  mem : ctx.myUid ∈ participants
  share_eq : computeXorShareSecure prim roundId ctx.myUid participants none payloadLen
    ctx.edgeKeys = some share
  state_eq : d' = d.storeCollector roundId
    ((RoundCollector.new channel roundId participants deadlineSecs payloadLen env.now).trySubmit
      ctx.myUid share)
  action_eq : action = RoundAction.mk [] (toOthers ctx.myUid participants
    (.dcRoundShare channel roundId ctx.myUid share
      (signShare prim ctx.signingKey channel roundId share)))

/-- Taking part in a round does nothing or answers with a neutral share. -/
theorem participate_cases {channel : String} {roundId : ℕ} {participants : List String}
    {deadlineSecs payloadLen : ℕ} {action : RoundAction}
    (h : participate prim env d channel roundId participants deadlineSecs payloadLen ctx =
      (d', action)) :
    (d' = d ∧ action = {}) ∨ ∃ share, Answered prim env ctx d d' channel roundId participants
      deadlineSecs payloadLen share action := by
  unfold participate at h
  split_ifs at h with hmem
  · split at h
    · cases h
      exact Or.inl ⟨rfl, rfl⟩
    next share hshare =>
      cases h
      exact Or.inr ⟨share, hmem, hshare, rfl, rfl⟩
  · cases h
    exact Or.inl ⟨rfl, rfl⟩

/-- The state in which an announced round is answered: the counter has moved to it, or our own
round of that id has been given up. -/
inductive Entered (ctx : RoundContext) (d : RoundDriver) (roundId : ℕ) (leaderId : String) :
    RoundDriver → Prop
  | next (h : roundId = d.tracker.currentRoundId + 1) : Entered ctx d roundId leaderId d.advance
  | lost (hpending : d.pendingRoundId = some roundId) (hlt : leaderId < ctx.myUid) :
      Entered ctx d roundId leaderId { d.abortPendingRound with retryAfterPeer := some roundId }

/-- An announced round is ignored, or entered and then answered or not. -/
theorem onRoundStart_cases {channel : String} {roundId : ℕ} {leaderId : String}
    {participants : List String} {deadlineSecs payloadLen : ℕ} {action : RoundAction}
    (h : onRoundStart prim env d channel roundId leaderId participants deadlineSecs payloadLen
      ctx = (d', action)) :
    (d' = d ∧ action = {}) ∨ ∃ d₁, Entered ctx d roundId leaderId d₁ ∧
      ((d' = d₁ ∧ action = {}) ∨ ∃ share, Answered prim env ctx d₁ d' channel roundId participants
        deadlineSecs payloadLen share action) := by
  unfold onRoundStart RoundTracker.markSeen at h
  by_cases hnext : roundId = d.tracker.currentRoundId + 1
  -- accepting the next id is the same move of the counter as initiating a round
  · rw [if_pos hnext] at h
    refine Or.inr ⟨d.advance, .next hnext, participate_cases ?_⟩
    rw [← h, advance, RoundTracker.nextRound, ← hnext]
  · rw [if_neg hnext] at h
    dsimp only at h
    split_ifs at h with hlost
    · exact Or.inr ⟨_, .lost hlost.1.1 hlost.2, participate_cases h⟩
    · cases h
      exact Or.inl ⟨rfl, rfl⟩

/-- Our own share of the pending round goes out, after the shares of all the others. -/
structure Released (env : CallEnv) (ctx : RoundContext) (d d' : RoundDriver) (channel : String)
    (roundId : ℕ) (c c' : RoundCollector) (share signature : Bytes) (out : Outgoing) : Prop where
  pending : d.pendingRoundId = some roundId
  unsent : d.myShareBroadcast = false
  missing : c.missingParticipants = [ctx.myUid]
  share_eq : d.myShare = some (share, signature)
  state_eq : d' = { d with myShareBroadcast := true }
  collector_eq : c' = c.trySubmit ctx.myUid share
  out_eq : out = toOthers ctx.myUid (env.uidOrder.visit c'.participants)
    (.dcRoundShare channel roundId ctx.myUid share signature)

/-- Our own share completes the round if it has the length the collector expects. -/
theorem Released.isComplete {channel : String} {roundId : ℕ} {c c' : RoundCollector}
    {share signature : Bytes} {out : Outgoing}
    (hrel : Released env ctx d d' channel roundId c c' share signature out) (hc : c.WellFormed)
    (hlen : share.length = c.payloadLen) : c'.isComplete = true := by
  obtain ⟨hmem, hnot, hothers⟩ := hc.missingParticipants_eq_singleton.mp hrel.missing
  have hok : c.submitShare ctx.myUid share = .ok { c with
      sharesReceived := c.sharesReceived.insert ctx.myUid share } :=
    RoundCollector.submitShare_eq_ok.mpr ⟨hmem, hnot, hlen, rfl⟩
  rw [hrel.collector_eq, RoundCollector.trySubmit, hok]
  refine (hc.submitShare hok).isComplete_iff.mpr fun uid huid => ?_
  rw [AList.mem_insert]
  by_cases heq : uid = ctx.myUid
  · exact Or.inl heq
  · exact Or.inr (hothers uid huid heq)

/-- After a share has been stored, nothing is sent or our own share is released. -/
theorem broadcastOwnShare_cases {channel : String} {roundId : ℕ} {c c' : RoundCollector}
    {out : Outgoing}
    (h : broadcastOwnShare env d channel roundId c ctx = (d', c', out)) :
    (d' = d ∧ c' = c ∧ out = []) ∨
      ∃ share signature, Released env ctx d d' channel roundId c c' share signature out := by
  unfold broadcastOwnShare at h
  split_ifs at h with hrelease
  · split at h
    · cases h
      exact Or.inl ⟨rfl, rfl, rfl⟩
    next share signature hshare =>
      cases h
      exact Or.inr ⟨share, signature, hrelease.1, hrelease.2.1, hrelease.2.2, hshare, rfl, rfl,
        rfl⟩
  · cases h
    exact Or.inl ⟨rfl, rfl, rfl⟩

/-- An extracted message carries the text of the complete collector. -/
theorem mem_extraction {channel : String} {roundId : ℕ} {c : RoundCollector}
    {m : ExtractedMessage} (h : m ∈ extraction prim d channel roundId c) :
    m.roundId = roundId ∧ extractText prim c = some m.text := by
  unfold extraction at h
  split at h
  next text htext =>
    split_ifs at h
    · simp at h
    · obtain rfl := List.mem_singleton.mp h
      exact ⟨rfl, htext⟩
  · simp at h

/-- An invariant that survives the end of our round, dropping a message and retrying one,
survives the end of a complete round. -/
theorem finishRound_induct {I : RoundDriver → Prop} {channel : String} {roundId : ℕ}
    {c : RoundCollector}
    (hremove : ∀ emitted, (d.pendingRoundId ≠ some roundId →
        I { d.removeCollector roundId with emitted := emitted }) ∧
      (d.pendingRoundId = some roundId →
        I ({ d.removeCollector roundId with emitted := emitted } : RoundDriver).clearPending))
    (hdrop : ∀ d, I d → I { d with pendingMessage := none })
    (hpeer : ∀ d, I d → I { d with retryAfterPeer := none })
    (hretry : ∀ d, I d →
      I (retryPending prim env d channel (env.uidOrder.visit c.participants) ctx)) :
    I (finishRound prim env d channel roundId c ctx).1 := by
  -- the invariant is needed only after our own round has been cleared
  have hsettle : ∀ emitted ok, I (settleOwn prim env
      { d.removeCollector roundId with emitted := emitted } channel roundId ok
      (env.uidOrder.visit c.participants) ctx) := by
    intro emitted ok
    unfold settleOwn
    split_ifs with hmine hok
    · exact hdrop _ ((hremove emitted).2 hmine)
    · exact hretry _ ((hremove emitted).2 hmine)
    · exact (hremove emitted).1 hmine
  have hafter : ∀ d, I d → I (retryAfter prim env d channel roundId
      (env.uidOrder.visit c.participants) ctx) := by
    intro d hd
    unfold retryAfter
    dsimp only
    split_ifs
    · exact hretry _ (hpeer d hd)
    · exact hpeer d hd
    · exact hd
  exact hafter _ (hsettle _ _)

/-- An accepted share: it is stored in `c₁`, our own share may follow, and the round is finished
if the collector is complete. -/
structure Stored (prim : Primitives) (env : CallEnv) (ctx : RoundContext) (d d' : RoundDriver)
    (channel : String) (roundId : ℕ) (peerUid : String) (share : Bytes) (action : RoundAction)
    (c c₁ c₂ : RoundCollector) (d₁ : RoundDriver) (out : Outgoing) : Prop where
  lookup_eq : d.collectors.lookup roundId = some c
  submit_eq : c.submitShare peerUid share = .ok c₁
  broadcast_eq : broadcastOwnShare env d channel roundId c₁ ctx = (d₁, c₂, out)
  result_eq : (d', action) = if c₂.isComplete then
      ((finishRound prim env (d₁.storeCollector roundId c₂) channel roundId c₂ ctx).1,
        ⟨extraction prim (d₁.storeCollector roundId c₂) channel roundId c₂, out⟩)
    else (d₁.storeCollector roundId c₂, ⟨[], out⟩)

/-- An incoming share is refused or stored. -/
theorem onRoundShare_cases {channel : String} {roundId : ℕ} {peerUid : String}
    {share signature : Bytes} {action : RoundAction}
    (h : onRoundShare prim env d channel roundId peerUid share signature ctx = (d', action)) :
    (d' = d ∧ action = {}) ∨ ∃ c c₁ c₂ d₁ out,
      Stored prim env ctx d d' channel roundId peerUid share action c c₁ c₂ d₁ out := by
  unfold onRoundShare at h
  split_ifs at h with hadmitted
  · cases h
    exact Or.inl ⟨rfl, rfl⟩
  · split at h
    · cases h
      exact Or.inl ⟨rfl, rfl⟩
    next c hc =>
      split at h
      · cases h
        exact Or.inl ⟨rfl, rfl⟩
      next c₁ hsubmit =>
        -- name the outcome of the broadcast; the rest of the call is then the branch on `c₂`
        obtain ⟨⟨d₁, c₂, out⟩, hb⟩ :
            ∃ r, broadcastOwnShare env d channel roundId c₁ ctx = r := ⟨_, rfl⟩
        refine Or.inr ⟨c, c₁, c₂, d₁, out, hc, hsubmit, hb, ?_⟩
        rw [hb] at h
        rw [← h]
        rfl

/-- What `handle` does with the message, once the expired rounds are dropped. -/
def respond (prim : Primitives) (env : CallEnv) (d : RoundDriver) (msg : PeerMessage)
    (ctx : RoundContext) : RoundDriver × RoundAction :=
  match msg with
  | .dcRoundStart channel roundId leaderId participants deadlineSecs payloadLen =>
    onRoundStart prim env d channel roundId leaderId participants deadlineSecs payloadLen ctx
  | .dcRoundShare channel roundId peerUid xoredPayload signature =>
    onRoundShare prim env d channel roundId peerUid xoredPayload signature ctx
  | _ => (d, {})

/-- A message is answered after the expired rounds are dropped, and then the buffer is flushed. -/
theorem handle_eq (msg : PeerMessage) :
    handle prim env d msg ctx =
      let r := respond prim env (dropExpired prim env ctx d) msg ctx
      ({ r.1 with pendingOutgoing := [] },
        { r.2 with outgoing := r.2.outgoing ++ r.1.pendingOutgoing }) := by
  cases msg <;> rfl

end RoundDriver

end ChronoShift
