import ChronoShift.DcNet.RoundDriverCases

/-!
# Masks of two channels of one node

A node runs one driver for each channel, and passes the same edge keys into all of them. The HKDF
info of a mask names the round and the two peers, but not the channel, and every driver counts
its rounds from zero. So the mask of an edge depends on the round id alone, and two channels with
a common friend use it twice as soon as they share a round of the same id
(`TwoChannels.masks_not_disjoint`).

A share is the exclusive or of the masks of the edges to the other participants, and it is sent to
exactly these participants; so the masks of what was sent are read off the recipients
(`maskInputs`).

* `call_shares_live`: a call shares only a round that its message names and that the driver has
  not passed yet, with friends that take part;
* `TwoChannels.masks_disjoint`: if no such round has been shared with such a friend on the other
  channel, the two channels use different masks.
-/

namespace ChronoShift

open ToMathlib

/-- A node: its uid and its edge keys. -/
structure Node where
  myUid : String
  edgeKeys : HashMap String Bytes32

/-- The node passes its own uid and edge keys into a driver call. The signing key and the keys on
record may be different in every call. -/
structure Node.Owns (node : Node) (ctx : RoundContext) : Prop where
  myUid : ctx.myUid = node.myUid
  edgeKeys : ctx.edgeKeys = node.edgeKeys

/-- The input of `derivePairShare` for the edge to `friend` in a round: the edge key and the HKDF
info. -/
def maskInput (prim : Primitives) (node : Node) (roundId : ℕ) (friend : String) :
    Option (Bytes32 × Bytes) :=
  (node.edgeKeys.lookup friend).map fun key =>
    (key, pairInfo roundId (peerIdOf prim node.myUid) (peerIdOf prim friend))

/-- The recipients of shares, with the round of the share. -/
def shareTargets (out : Outgoing) : List (ℕ × String) :=
  out.filterMap fun
    | (target, .dcRoundShare _ roundId _ _ _) => some (roundId, target)
    | _ => none

/-- The inputs of `derivePairShare` used by the shares among `out`. -/
def maskInputs (prim : Primitives) (node : Node) (out : Outgoing) : List (Bytes32 × Bytes) :=
  (shareTargets out).filterMap fun p => maskInput prim node p.1 p.2

/-- The shares among what a call emits. -/
theorem mem_shareTargets {out : Outgoing} {roundId : ℕ} {target : String} :
    (roundId, target) ∈ shareTargets out ↔ ∃ channel uid payload signature,
      (target, PeerMessage.dcRoundShare channel roundId uid payload signature) ∈ out := by
  rw [shareTargets, List.mem_filterMap]
  constructor
  · rintro ⟨⟨target', msg⟩, hmem, heq⟩
    cases msg <;> simp only [Option.some.injEq, Prod.mk.injEq, reduceCtorEq] at heq
    obtain ⟨rfl, rfl⟩ := heq
    exact ⟨_, _, _, _, hmem⟩
  · rintro ⟨channel, uid, payload, signature, hmem⟩
    exact ⟨_, hmem, rfl⟩

/-- The shares of two batches, one after the other. -/
theorem shareTargets_append (out out' : Outgoing) :
    shareTargets (out ++ out') = shareTargets out ++ shareTargets out' := List.filterMap_append

/-- A share goes to every other participant of its round. -/
theorem mem_shareTargets_toOthers {myUid : String} {participants : List String}
    {channel uid : String} {roundId id : ℕ} {payload signature : Bytes} {target : String} :
    (id, target) ∈ shareTargets (RoundDriver.toOthers myUid participants
        (.dcRoundShare channel roundId uid payload signature)) ↔
      id = roundId ∧ target ∈ participants ∧ target ≠ myUid := by
  rw [mem_shareTargets]
  constructor
  · rintro ⟨channel', uid', payload', signature', hmem⟩
    obtain ⟨hmem, hne, heq⟩ := RoundDriver.mem_toOthers.mp hmem
    cases heq
    exact ⟨rfl, hmem, hne⟩
  · rintro ⟨rfl, hmem, hne⟩
    exact ⟨_, _, _, _, RoundDriver.mem_toOthers.mpr ⟨hmem, hne, rfl⟩⟩

/-- To announce a round is not to share it. -/
theorem shareTargets_announcement (d : RoundDriver) (ctx : RoundContext) (channel : String)
    (participants : List String) :
    shareTargets (d.announcement ctx channel participants) = [] := by
  rw [List.eq_nil_iff_forall_not_mem]
  rintro ⟨id, target⟩ h
  obtain ⟨channel', uid', payload', signature', hmem⟩ := mem_shareTargets.mp h
  have heq := (RoundDriver.mem_toOthers.mp hmem).2.2
  cases heq

/-! ## The rounds a call can share -/

/-- A round the driver has not passed: one above its counter, or its pending round. -/
def Live (d : RoundDriver) (roundId : ℕ) : Prop :=
  d.tracker.currentRoundId < roundId ∨ d.pendingRoundId = some roundId

instance (d : RoundDriver) (roundId : ℕ) : Decidable (Live d roundId) :=
  inferInstanceAs (Decidable (_ ∨ _))

/-- The members of the rounds the driver collects shares for. -/
def roundMembers (d : RoundDriver) : List String :=
  d.collectors.values.flatMap RoundCollector.participants

/-- The round a message names, with the friends that take part as far as the driver knows. -/
def namedRound (d : RoundDriver) : PeerMessage → Option (ℕ × List String)
  | .dcRoundStart _ roundId _ participants _ _ => some (roundId, participants)
  | .dcRoundShare _ roundId _ _ _ => some (roundId, roundMembers d)
  | _ => none

/-- The edges whose masks a call may use: those of the live round that its message names. -/
def liveEdges (d : RoundDriver) : DriverCall → List (ℕ × String)
  | .handle msg =>
    match namedRound d msg with
    | some (roundId, friends) => if Live d roundId then friends.map (roundId, ·) else []
    | none => []
  | _ => []

section Live

variable {prim : Primitives} {env : CallEnv} {ctx : RoundContext} {d d₀ d' : RoundDriver}

/-- The members are found in the collectors. -/
theorem mem_roundMembers {friend : String} :
    friend ∈ roundMembers d ↔
      ∃ id c, d.collectors.lookup id = some c ∧ friend ∈ c.participants := by
  simp only [roundMembers, HashMap.values, List.mem_flatMap, List.mem_map]
  constructor
  · rintro ⟨c, ⟨⟨id, c'⟩, hmem, rfl⟩, hfriend⟩
    exact ⟨id, c', HashMap.mem_pairs_iff.mp hmem, hfriend⟩
  · rintro ⟨id, c, hlookup, hfriend⟩
    exact ⟨c, ⟨(id, c), HashMap.mem_pairs_iff.mpr hlookup, rfl⟩, hfriend⟩

/-- The edges of a live round lead to the friends that take part in it. -/
theorem mem_liveEdges {msg : PeerMessage} {roundId : ℕ} {friends : List String}
    (hnamed : namedRound d msg = some (roundId, friends)) (hlive : Live d roundId)
    {friend : String} (hfriend : friend ∈ friends) :
    (roundId, friend) ∈ liveEdges d (.handle msg) := by
  simp only [liveEdges, hnamed, if_pos hlive]
  exact List.mem_map_of_mem hfriend

/-- The driver goes on from `d₀` without sending a share: its rounds are live in `d₀`, with
members that `d₀` knows. -/
structure LaterOf (d₀ d : RoundDriver) : Prop where
  counter : d₀.tracker.currentRoundId ≤ d.tracker.currentRoundId
  pending : ∀ id, d.pendingRoundId = some id → Live d₀ id
  members : ∀ friend ∈ roundMembers d, friend ∈ roundMembers d₀
  outgoing : shareTargets d.pendingOutgoing = []

/-- A round that is live later was live before. -/
theorem LaterOf.live (h : LaterOf d₀ d) {id : ℕ} (hid : Live d id) : Live d₀ id := by
  rcases hid with hlt | hpending
  · exact Or.inl (lt_of_le_of_lt h.counter hlt)
  · exact h.pending id hpending

/-- The queued message, the retries and our own share do not matter. -/
theorem LaterOf.congr (h : LaterOf d₀ d) (htracker : d'.tracker = d.tracker)
    (hpending : d'.pendingRoundId = d.pendingRoundId) (hcollectors : d'.collectors = d.collectors)
    (hout : d'.pendingOutgoing = d.pendingOutgoing) : LaterOf d₀ d' := by
  refine ⟨?_, ?_, ?_, ?_⟩
  · rw [htracker]
    exact h.counter
  · rw [hpending]
    exact h.pending
  · rw [roundMembers, hcollectors]
    exact h.members
  · rw [hout]
    exact h.outgoing

/-- An advanced counter leaves fewer rounds above it. -/
theorem LaterOf.advance (h : LaterOf d₀ d) : LaterOf d₀ d.advance :=
  ⟨Nat.le_succ_of_le h.counter, h.pending, h.members, h.outgoing⟩

/-- The pending round is given up. -/
theorem LaterOf.clearPending (h : LaterOf d₀ d) : LaterOf d₀ d.clearPending where
  counter := h.counter
  pending _ hid := nomatch hid
  members := h.members
  outgoing := h.outgoing

/-- With a collector its members may be forgotten. -/
theorem LaterOf.removeCollector (h : LaterOf d₀ d) (id : ℕ) :
    LaterOf d₀ (d.removeCollector id) := by
  refine ⟨h.counter, h.pending, fun friend hfriend => ?_, h.outgoing⟩
  obtain ⟨id', c, hc, hmem⟩ := mem_roundMembers.mp hfriend
  exact h.members friend
    (mem_roundMembers.mpr ⟨id', c, RoundDriver.lookup_removeCollector hc, hmem⟩)

/-- A retry among known members starts a round above the counter. -/
theorem LaterOf.retryPending (h : LaterOf d₀ d) {channel : String} {participants : List String}
    (hknown : ∀ friend ∈ participants, friend ∈ roundMembers d₀) :
    LaterOf d₀ (RoundDriver.retryPending prim env d channel participants ctx) := by
  refine RoundDriver.retryPending_induct h ?_ ?_ ?_ ?_
  · exact fun d hd => hd.congr rfl rfl rfl rfl
  · exact fun d n hd => hd.congr rfl rfl rfl rfl
  · exact fun d hd => hd.advance
  · intro d d₁ msg share hd _ hb
    obtain ⟨-, -, -, -, rfl⟩ := hb
    refine ⟨Nat.le_succ_of_le hd.counter, fun id hid => ?_, fun friend hfriend => ?_, ?_⟩
    -- the new pending round lies above the counter of `d₀` as well
    · obtain rfl := Option.some.inj hid
      exact Or.inl (Nat.lt_succ_of_le hd.counter)
    · obtain ⟨id', c, hc, hmem⟩ := mem_roundMembers.mp hfriend
      rcases RoundDriver.lookup_storeCollector hc with ⟨-, rfl⟩ | hc
      · exact hknown friend (List.mem_dedup.mp hmem)
      · exact hd.members friend (mem_roundMembers.mpr ⟨id', c, hc, hmem⟩)
    · rw [shareTargets_append, hd.outgoing, shareTargets_announcement]
      rfl

/-- An expired round is given up or retried among its own members. -/
theorem LaterOf.dropExpired (h : LaterOf d₀ d) :
    LaterOf d₀ (RoundDriver.dropExpired prim env ctx d) := by
  refine RoundDriver.dropExpired_induct h fun d id hd => ?_
  rcases RoundDriver.expireRound_cases id rfl with ⟨-, heq⟩ | ⟨-, heq⟩ | ⟨c, -, hc, heq⟩
  · rw [heq]
    exact hd.removeCollector id
  · rw [heq]
    exact (hd.removeCollector id).clearPending
  · rw [heq]
    refine (hd.removeCollector id).clearPending.retryPending fun friend hfriend => ?_
    exact hd.members friend (mem_roundMembers.mpr
      ⟨id, c, hc, env.uidOrder.mem_visit.mp hfriend⟩)

/-- A completed round is closed, or retried among its own members. -/
theorem LaterOf.finishRound (h : LaterOf d₀ d) {channel : String} {id : ℕ} {c : RoundCollector}
    (hknown : ∀ friend ∈ c.participants, friend ∈ roundMembers d₀) :
    LaterOf d₀ (RoundDriver.finishRound prim env d channel id c ctx).1 := by
  refine RoundDriver.finishRound_induct (fun emitted => ⟨fun _ => ?_, fun _ => ?_⟩) ?_ ?_ ?_
  · exact (h.removeCollector id).congr rfl rfl rfl rfl
  · exact (h.removeCollector id).clearPending.congr rfl rfl rfl rfl
  · exact fun d hd => hd.congr rfl rfl rfl rfl
  · exact fun d hd => hd.congr rfl rfl rfl rfl
  · exact fun d hd => hd.retryPending fun friend hfriend =>
      hknown friend (env.uidOrder.mem_visit.mp hfriend)

/-- Between two calls no message is buffered. -/
def Drained (d : RoundDriver) : Prop := d.pendingOutgoing = []

/-- A driver with nothing buffered is where it starts. -/
theorem LaterOf.refl (h : Drained d) : LaterOf d d :=
  ⟨le_rfl, fun _ hid => Or.inr hid, fun _ hfriend => hfriend, by rw [h]; rfl⟩

variable {channel : String} {roundId : ℕ} {action : RoundAction}

/-- An announced round is answered if it is live, and the answer goes to its participants. -/
theorem onRoundStart_live (h : LaterOf d₀ d) {leaderId : String} {participants : List String}
    {deadlineSecs payloadLen : ℕ}
    (hstart : RoundDriver.onRoundStart prim env d channel roundId leaderId participants
      deadlineSecs payloadLen ctx = (d', action)) :
    shareTargets d'.pendingOutgoing = [] ∧
      ∀ id target, (id, target) ∈ shareTargets action.outgoing →
        id = roundId ∧ Live d₀ id ∧ target ∈ participants := by
  rcases RoundDriver.onRoundStart_cases hstart with ⟨rfl, rfl⟩ | ⟨d₁, hentered, hd'⟩
  · exact ⟨h.outgoing, fun id target hmem => absurd hmem List.not_mem_nil⟩
  -- entering a round buffers nothing; the round was the next one or the pending one
  · have hd₁ : shareTargets d₁.pendingOutgoing = [] ∧ Live d₀ roundId := by
      rcases hentered with hnext | ⟨hpending, -⟩
      · exact ⟨h.outgoing, h.live (Or.inl (by omega))⟩
      · exact ⟨h.outgoing, h.pending _ hpending⟩
    rcases hd' with ⟨rfl, rfl⟩ | ⟨share, -, -, rfl, rfl⟩
    · exact ⟨hd₁.1, fun id target hmem => absurd hmem List.not_mem_nil⟩
    · refine ⟨hd₁.1, fun id target hmem => ?_⟩
      obtain ⟨rfl, htarget, -⟩ := mem_shareTargets_toOthers.mp hmem
      exact ⟨rfl, hd₁.2, htarget⟩

/-- A share releases our own share if its round is pending, and ours goes to its members. -/
theorem onRoundShare_live (h : LaterOf d₀ d) {peerUid : String} {share signature : Bytes}
    (hshare : RoundDriver.onRoundShare prim env d channel roundId peerUid share signature ctx =
      (d', action)) :
    shareTargets d'.pendingOutgoing = [] ∧
      ∀ id target, (id, target) ∈ shareTargets action.outgoing →
        id = roundId ∧ Live d₀ id ∧ target ∈ roundMembers d₀ := by
  rcases RoundDriver.onRoundShare_cases hshare with ⟨rfl, rfl⟩ | ⟨c, c₁, c₂, d₁, out, hst⟩
  · exact ⟨h.outgoing, fun id target hmem => absurd hmem List.not_mem_nil⟩
  · obtain ⟨hlookup, hsubmit, hbroadcast, hresult⟩ := hst
    have hknown : ∀ friend ∈ c₁.participants, friend ∈ roundMembers d₀ := by
      intro friend hfriend
      rw [(RoundCollector.submitShare_frame hsubmit).2.2.1] at hfriend
      exact h.members friend (mem_roundMembers.mpr ⟨roundId, c, hlookup, hfriend⟩)
    -- the collector that is stored in the end has the same members
    obtain ⟨hd₁, hc₂, hout⟩ : LaterOf d₀ d₁ ∧
        (∀ friend ∈ c₂.participants, friend ∈ roundMembers d₀) ∧
        ∀ id target, (id, target) ∈ shareTargets out →
          id = roundId ∧ Live d₀ id ∧ target ∈ roundMembers d₀ := by
      rcases RoundDriver.broadcastOwnShare_cases hbroadcast with ⟨rfl, rfl, rfl⟩ | ⟨s, sig, hrel⟩
      · exact ⟨h, hknown, fun id target hmem => absurd hmem List.not_mem_nil⟩
      · obtain ⟨hpending, -, -, -, rfl, rfl, rfl⟩ := hrel
        have hmembers : ∀ friend ∈ (c₁.trySubmit ctx.myUid s).participants,
            friend ∈ roundMembers d₀ := by
          intro friend hfriend
          rcases c₁.trySubmit_cases ctx.myUid s with heq | hok
          · rw [heq] at hfriend
            exact hknown friend hfriend
          · rw [(RoundCollector.submitShare_frame hok).2.2.1] at hfriend
            exact hknown friend hfriend
        refine ⟨h.congr rfl rfl rfl rfl, hmembers, fun id target hmem => ?_⟩
        obtain ⟨rfl, htarget, -⟩ := mem_shareTargets_toOthers.mp hmem
        exact ⟨rfl, h.pending _ hpending,
          hmembers target (env.uidOrder.mem_visit.mp htarget)⟩
    have hstore : LaterOf d₀ (d₁.storeCollector roundId c₂) := by
      refine ⟨hd₁.counter, hd₁.pending, fun friend hfriend => ?_, hd₁.outgoing⟩
      obtain ⟨id', c', hc', hmem⟩ := mem_roundMembers.mp hfriend
      rcases RoundDriver.lookup_storeCollector hc' with ⟨-, rfl⟩ | hc'
      · exact hc₂ friend hmem
      · exact hd₁.members friend (mem_roundMembers.mpr ⟨id', c', hc', hmem⟩)
    split_ifs at hresult
    · cases hresult
      exact ⟨(hstore.finishRound hc₂).outgoing, hout⟩
    · cases hresult
      exact ⟨hstore.outgoing, hout⟩

/-- The buffered messages are announcements, so the shares of a result are those of the message
itself. -/
theorem mem_liveEdges_of_targets {msg : PeerMessage} {friends : List String}
    {out buffer : Outgoing} (hnamed : namedRound d msg = some (roundId, friends))
    (hbuffer : shareTargets buffer = [])
    (htargets : ∀ id target, (id, target) ∈ shareTargets out →
      id = roundId ∧ Live d id ∧ target ∈ friends) :
    ∀ e ∈ shareTargets (out ++ buffer), e ∈ liveEdges d (.handle msg) := by
  rintro ⟨id, target⟩ he
  rw [shareTargets_append, hbuffer, List.append_nil] at he
  obtain ⟨rfl, hlive, htarget⟩ := htargets id target he
  exact mem_liveEdges hnamed hlive htarget

/-- A call shares only a live round that its message names, with friends that take part. -/
theorem call_shares_live (hdrained : Drained d) {input : DriverInput} :
    Drained (d.call prim input).1 ∧
      ∀ e ∈ shareTargets (d.call prim input).2.outgoing, e ∈ liveEdges d input.call := by
  obtain ⟨env, ctx, call⟩ := input
  cases call with
  | initiate channel text participants =>
    obtain ⟨⟨d', res⟩, hinit⟩ :
        ∃ r, RoundDriver.initiate prim env d channel text participants ctx = r := ⟨_, rfl⟩
    simp only [RoundDriver.call, hinit]
    rcases RoundDriver.initiate_cases hinit with ⟨rfl, e, rfl⟩ | ⟨rfl, e, rfl⟩ | ⟨share, hb, rfl⟩
    · exact ⟨hdrained, fun e he => absurd he List.not_mem_nil⟩
    · exact ⟨hdrained, fun e he => absurd he List.not_mem_nil⟩
    · obtain ⟨-, -, -, -, rfl⟩ := hb
      refine ⟨hdrained, fun e he => ?_⟩
      dsimp only at he
      rw [shareTargets_announcement] at he
      exact absurd he List.not_mem_nil
  | handle msg =>
    have hdrop : LaterOf d (RoundDriver.dropExpired prim env ctx d) :=
      (LaterOf.refl hdrained).dropExpired
    -- the buffer is flushed, and what expiry put into it are announcements
    refine ⟨rfl, ?_⟩
    cases msg with
    | dcRoundStart ch roundId leaderId participants deadlineSecs payloadLen =>
      obtain ⟨hbuffer, htargets⟩ := onRoundStart_live hdrop
        (Eq.refl (RoundDriver.onRoundStart prim env (RoundDriver.dropExpired prim env ctx d) ch
          roundId leaderId participants deadlineSecs payloadLen ctx))
      exact mem_liveEdges_of_targets rfl hbuffer htargets
    | dcRoundShare ch roundId peerUid xoredPayload signature =>
      obtain ⟨hbuffer, htargets⟩ := onRoundShare_live hdrop
        (Eq.refl (RoundDriver.onRoundShare prim env (RoundDriver.dropExpired prim env ctx d) ch
          roundId peerUid xoredPayload signature ctx))
      exact mem_liveEdges_of_targets rfl hbuffer htargets
    | _ =>
      intro e he
      change e ∈ shareTargets (_ ++ _) at he
      rw [shareTargets_append, hdrop.outgoing, List.append_nil] at he
      exact absurd he List.not_mem_nil
  | drainPendingOutgoing =>
    refine ⟨rfl, fun e he => ?_⟩
    change e ∈ shareTargets d.pendingOutgoing at he
    rw [hdrained] at he
    exact absurd he List.not_mem_nil

end Live

/-! ## Two channels -/

/-- The two channels. -/
inductive Side where
  | first
  | second
  deriving DecidableEq

/-- The other channel. -/
def Side.other : Side → Side
  | .first => .second
  | .second => .first

/-- The drivers of the two channels, and what they have sent. -/
structure TwoChannels where
  drivers : Side → RoundDriver
  sent : Side → Outgoing

namespace TwoChannels

/-- Both drivers are new. -/
def init : TwoChannels := ⟨fun _ => RoundDriver.new, fun _ => []⟩

/-- The state after a call of one driver. -/
def act (prim : Primitives) (s : TwoChannels) (side : Side) (input : DriverInput) :
    TwoChannels where
  drivers := Function.update s.drivers side ((s.drivers side).call prim input).1
  sent := Function.update s.sent side
    (s.sent side ++ ((s.drivers side).call prim input).2.outgoing)

/-- A call concerns the channel `name`. -/
def Concerns (name : String) : DriverCall → Prop
  | .initiate channel _ _ => channel = name
  | .handle (.dcRoundStart channel _ _ _ _ _) => channel = name
  | .handle (.dcRoundShare channel _ _ _ _) => channel = name
  | _ => True

/-- The states reachable by calls of the two drivers, each on its own channel, when every call is
admitted by `ok` in the state it is made in. -/
inductive Reachable (prim : Primitives) (node : Node) (name : Side → String)
    (ok : TwoChannels → Side → DriverInput → Prop) : TwoChannels → Prop
  | init : Reachable prim node name ok init
  | act {s : TwoChannels} {side : Side} {input : DriverInput} :
      Reachable prim node name ok s → node.Owns input.ctx → Concerns (name side) input.call →
      ok s side input → Reachable prim node name ok (s.act prim side input)

/-- No mask input is used on both channels. -/
def MasksDisjoint (prim : Primitives) (node : Node) (s : TwoChannels) : Prop :=
  ∀ x ∈ maskInputs prim node (s.sent .first), x ∉ maskInputs prim node (s.sent .second)

/-- The masks that the live round named by a call may use have not been used on the other
channel. -/
def FreshRound (prim : Primitives) (node : Node) (s : TwoChannels) (side : Side)
    (input : DriverInput) : Prop :=
  ∀ x ∈ (liveEdges (s.drivers side) input.call).filterMap fun e => maskInput prim node e.1 e.2,
    x ∉ maskInputs prim node (s.sent side.other)

/-- The two channels use different masks, and nothing is buffered. -/
structure MaskInv (prim : Primitives) (node : Node) (s : TwoChannels) : Prop where
  drained : ∀ side, Drained (s.drivers side)
  disjoint : ∀ side, ∀ x ∈ maskInputs prim node (s.sent side),
    x ∉ maskInputs prim node (s.sent side.other)

variable {prim : Primitives} {node : Node} {name : Side → String} {s : TwoChannels}

/-- Nothing has been sent on either channel. -/
theorem maskInv_init : MaskInv prim node init where
  drained _ := rfl
  disjoint _ _ hx := absurd hx List.not_mem_nil

/-- A call uses masks of the live round that it names, and these are fresh. -/
theorem MaskInv.act (h : MaskInv prim node s) {side : Side} {input : DriverInput}
    (hok : FreshRound prim node s side input) : MaskInv prim node (s.act prim side input) := by
  obtain ⟨hdrained, hlive⟩ := @call_shares_live prim _ (h.drained side) input
  -- what the call adds has not been used on the other channel
  have hnew : ∀ x ∈ maskInputs prim node
      (s.sent side ++ ((s.drivers side).call prim input).2.outgoing),
      x ∉ maskInputs prim node (s.sent side.other) := by
    intro x hx
    rw [maskInputs, shareTargets_append, List.filterMap_append, List.mem_append] at hx
    rcases hx with hx | hx
    · exact h.disjoint side x hx
    · obtain ⟨e, he, heq⟩ := List.mem_filterMap.mp hx
      exact hok x (List.mem_filterMap.mpr ⟨e, hlive e he, heq⟩)
  refine ⟨fun side' => ?_, fun side' x hx => ?_⟩
  · by_cases heq : side' = side
    · subst heq
      show Drained (Function.update s.drivers side' _ side')
      rw [Function.update_self]
      exact hdrained
    · show Drained (Function.update s.drivers side _ side')
      rw [Function.update_of_ne heq]
      exact h.drained side'
  · have hother : side.other ≠ side := by cases side <;> decide
    by_cases heq : side' = side
    · subst heq
      change x ∈ maskInputs prim node (Function.update s.sent side' _ side') at hx
      show x ∉ maskInputs prim node (Function.update s.sent side' _ side'.other)
      rw [Function.update_self] at hx
      rw [Function.update_of_ne hother]
      exact hnew x hx
    -- seen from the other channel, whose masks are the old ones
    · obtain rfl : side' = side.other := by cases side <;> cases side' <;> simp_all [Side.other]
      have hself : side.other.other = side := by cases side <;> rfl
      change x ∈ maskInputs prim node (Function.update s.sent side _ side.other) at hx
      show x ∉ maskInputs prim node (Function.update s.sent side _ side.other.other)
      rw [Function.update_of_ne hother] at hx
      rw [hself, Function.update_self]
      exact fun hx' => hnew x hx' hx

/-- In every run in which no call is given a live round that the other channel has shared with a
friend that takes part, the two channels never use a mask input twice. -/
theorem masks_disjoint (prim : Primitives) (node : Node) (name : Side → String) (s : TwoChannels)
    (hreach : s.Reachable prim node name (FreshRound prim node)) : s.MasksDisjoint prim node := by
  have hinv : MaskInv prim node s := by
    induction hreach with
    | init => exact maskInv_init
    | act _ _ _ hok ih => exact ih.act hok
  exact hinv.disjoint .first

/-- A call of `me` with the edge key to `bob`. -/
def meInput (call : DriverCall) : DriverInput :=
  ⟨⟨.stored, .stored, 0, fun _ => 0⟩,
    ⟨"me", .replicate 32 1, HashMap.ofPairs [("bob", .replicate 32 7)], ∅⟩, call⟩

/-- `bob` announces a round of a channel. -/
def bobStart (channel : String) (roundId : ℕ) : DriverCall :=
  .handle (.dcRoundStart channel roundId "bob" ["bob", "me"] 30 4)

/-- The channels `#x` and `#y`. -/
def xyName : Side → String
  | .first => "#x"
  | .second => "#y"

/-- The node `me`, with one friend. -/
def meNode : Node := ⟨"me", HashMap.ofPairs [("bob", .replicate 32 7)]⟩

/-- The round ids differ: the second channel has skipped a round it could not take part in. -/
theorem masks_disjoint_skipped :
    (((init.act .const .first (meInput (bobStart "#x" 1))).act .const .second
      (meInput (.initiate "#y" "hi" ["me", "carol"]))).act .const .second
      (meInput (bobStart "#y" 2))).MasksDisjoint .const meNode := by
  have hfirst : (init.act .const .first (meInput (bobStart "#x" 1))).Reachable .const meNode xyName
      (FreshRound .const meNode) := .act .init ⟨rfl, rfl⟩ rfl (by unfold FreshRound; decide)
  have hskip : ((init.act .const .first (meInput (bobStart "#x" 1))).act .const .second
      (meInput (.initiate "#y" "hi" ["me", "carol"]))).Reachable .const meNode xyName
      (FreshRound .const meNode) := .act hfirst ⟨rfl, rfl⟩ rfl (by unfold FreshRound; decide)
  exact masks_disjoint .const meNode xyName _
    (.act hskip ⟨rfl, rfl⟩ rfl (by unfold FreshRound; decide +kernel))

/-- `bob` announces round 1 on both channels, and both drivers answer with the same mask. -/
theorem masks_not_disjoint :
    ¬ ∀ (prim : Primitives) (node : Node) (name : Side → String), name .first ≠ name .second →
      ∀ s : TwoChannels, s.Reachable prim node name (fun _ _ _ => True) →
        s.MasksDisjoint prim node := by
  intro hclaim
  have hfirst : (init.act .const .first (meInput (bobStart "#x" 1))).Reachable .const meNode xyName
      (fun _ _ _ => True) := .act .init ⟨rfl, rfl⟩ rfl trivial
  have hboth : ((init.act .const .first (meInput (bobStart "#x" 1))).act .const .second
      (meInput (bobStart "#y" 1))).Reachable .const meNode xyName (fun _ _ _ => True) :=
    .act hfirst ⟨rfl, rfl⟩ rfl trivial
  have hdisjoint := hclaim .const meNode xyName (by decide) _ hboth
  exact absurd hdisjoint (by unfold MasksDisjoint; decide +kernel)

end TwoChannels

end ChronoShift
