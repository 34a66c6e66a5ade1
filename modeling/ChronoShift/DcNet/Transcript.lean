import ChronoShift.DcNet.Mesh

/-!
# What the messages of a round tell

A round of one initiator, and the transcript of the mesh: everything its drivers have sent, without
the signatures. The announcement of a round names its initiator, and nobody else announces a round
while nobody else has a message. So a transcript tells who has embedded the message, whatever the
masks are.

* `Mesh.RoundBy`: the runs in which one member initiates one text;
* `Mesh.RoundBy.startsBy`: all announcements of such a run name that member;
* `Mesh.unlinkable_iff`: when a transcript fits another initiator.
-/

namespace ChronoShift

open ToMathlib

/-- An announcement names `leader` as the initiator. -/
def StartsBy (leader : String) : PeerMessage → Prop
  | .dcRoundStart _ _ leaderId _ _ _ => leaderId = leader
  | _ => True

/-- The message without its signature. -/
def PeerMessage.eraseSignature : PeerMessage → PeerMessage
  | .dcRoundShare channel roundId peerUid xoredPayload _ =>
    .dcRoundShare channel roundId peerUid xoredPayload []
  | msg => msg

theorem startsBy_eraseSignature {leader : String} {msg : PeerMessage} :
    StartsBy leader msg.eraseSignature ↔ StartsBy leader msg := by
  cases msg <;> exact Iff.rfl

namespace RoundDriver

/-- What the driver of `uid` has buffered names `leader`, and only `leader` has a message. -/
structure NamesLeader (leader uid : String) (d : RoundDriver) : Prop where
  outgoing : ∀ p ∈ d.pendingOutgoing, StartsBy leader p.2
  message : uid ≠ leader → d.pendingMessage = none

section NamesLeader

variable {prim : Primitives} {env : CallEnv} {ctx : RoundContext} {d d' : RoundDriver}
  {leader uid channel : String} {participants : List String}

theorem NamesLeader.congr (hd : NamesLeader leader uid d)
    (hout : d'.pendingOutgoing = d.pendingOutgoing)
    (hmessage : d'.pendingMessage = d.pendingMessage ∨ d'.pendingMessage = none) :
    NamesLeader leader uid d' := by
  refine ⟨hout ▸ hd.outgoing, fun hne => ?_⟩
  rcases hmessage with hmessage | hmessage
  · rw [hmessage, hd.message hne]
  · exact hmessage

/-- A member announces its own rounds. -/
theorem startsBy_announcement :
    ∀ p ∈ announcement d ctx channel participants, StartsBy ctx.myUid p.2 := by
  intro p hp
  rw [(mem_toOthers.mp hp).2.2]
  exact rfl

/-- Only the member with a message can announce a round again. -/
theorem NamesLeader.retryPending (hd : NamesLeader leader uid d) (huid : ctx.myUid = uid) :
    NamesLeader leader uid (retryPending prim env d channel participants ctx) := by
  refine retryPending_induct hd (fun d hd => hd.congr rfl (Or.inr rfl))
    (fun d n hd => hd.congr rfl (Or.inl rfl)) (fun d hd => hd.congr rfl (Or.inl rfl)) ?_
  intro d d₁ msg share hd hmsg hbegun
  have hleader : uid = leader := by
    by_contra hne
    rw [hd.message hne] at hmsg
    cases hmsg
  refine ⟨fun p hp => ?_, fun hne => absurd hleader hne⟩
  rcases List.mem_append.mp hp with hp | hp
  · exact hd.outgoing p hp
  · rw [← hleader, ← huid]
    exact startsBy_announcement p hp

theorem NamesLeader.dropExpired (hd : NamesLeader leader uid d) (huid : ctx.myUid = uid) :
    NamesLeader leader uid (dropExpired prim env ctx d) := by
  refine dropExpired_induct hd fun d id hd => ?_
  rcases expireRound_cases id rfl with ⟨-, h⟩ | ⟨-, h⟩ | ⟨c, -, -, h⟩ <;> rw [h]
  · exact hd.congr rfl (Or.inl rfl)
  · exact hd.congr rfl (Or.inl rfl)
  · have hcleared : NamesLeader leader uid (d.removeCollector id).clearPending :=
      hd.congr rfl (Or.inl rfl)
    exact hcleared.retryPending huid

/-- A share is not an announcement. -/
theorem startsBy_of_mem_toOthers_share {roundId : ℕ} {peerUid : String} {share signature : Bytes}
    {p : String × PeerMessage} (hp : p ∈ toOthers ctx.myUid participants
      (.dcRoundShare channel roundId peerUid share signature)) : StartsBy leader p.2 := by
  rw [(mem_toOthers.mp hp).2.2]
  trivial

theorem NamesLeader.onRoundStart (hd : NamesLeader leader uid d) {roundId : ℕ} {leaderId : String}
    {deadlineSecs payloadLen : ℕ} {action : RoundAction}
    (h : onRoundStart prim env d channel roundId leaderId participants deadlineSecs payloadLen
      ctx = (d', action)) :
    NamesLeader leader uid d' ∧ ∀ p ∈ action.outgoing, StartsBy leader p.2 := by
  rcases onRoundStart_cases h with ⟨rfl, rfl⟩ | ⟨d₁, hentered, hanswer⟩
  · exact ⟨hd, fun p hp => absurd hp List.not_mem_nil⟩
  · have hd₁ : NamesLeader leader uid d₁ := by
      cases hentered with
      | next h => exact hd.congr rfl (Or.inl rfl)
      | lost hpending hlt => exact hd.congr rfl (Or.inl rfl)
    rcases hanswer with ⟨rfl, rfl⟩ | ⟨share, -, -, rfl, rfl⟩
    · exact ⟨hd₁, fun p hp => absurd hp List.not_mem_nil⟩
    · exact ⟨hd₁.congr rfl (Or.inl rfl), fun p hp => startsBy_of_mem_toOthers_share hp⟩

theorem NamesLeader.onRoundShare (hd : NamesLeader leader uid d) (huid : ctx.myUid = uid)
    {roundId : ℕ} {peerUid : String} {share signature : Bytes} {action : RoundAction}
    (h : onRoundShare prim env d channel roundId peerUid share signature ctx = (d', action)) :
    NamesLeader leader uid d' ∧ ∀ p ∈ action.outgoing, StartsBy leader p.2 := by
  rcases onRoundShare_cases h with ⟨rfl, rfl⟩ | ⟨c, c₁, c₂, d₁, out, -, -, hbroadcast, hresult⟩
  · exact ⟨hd, fun p hp => absurd hp List.not_mem_nil⟩
  · have hout : NamesLeader leader uid d₁ ∧ ∀ p ∈ out, StartsBy leader p.2 := by
      rcases broadcastOwnShare_cases hbroadcast with ⟨rfl, -, rfl⟩ | ⟨s, sig, hrel⟩
      · exact ⟨hd, fun p hp => absurd hp List.not_mem_nil⟩
      · rw [hrel.state_eq, hrel.out_eq]
        exact ⟨hd.congr rfl (Or.inl rfl), fun p hp => startsBy_of_mem_toOthers_share hp⟩
    have hstored : NamesLeader leader uid (d₁.storeCollector roundId c₂) :=
      hout.1.congr rfl (Or.inl rfl)
    split_ifs at hresult with hcomplete
    · cases hresult
      refine ⟨?_, hout.2⟩
      refine finishRound_induct (fun emitted => ⟨fun _ => ?_, fun _ => ?_⟩) (fun d hd => ?_)
        (fun d hd => ?_) fun d hd => hd.retryPending huid
      · exact hstored.congr rfl (Or.inl rfl)
      · exact hstored.congr rfl (Or.inl rfl)
      · exact hd.congr rfl (Or.inr rfl)
      · exact hd.congr rfl (Or.inl rfl)
    · cases hresult
      exact ⟨hstored, hout.2⟩

/-- What is sent while a message is handled, or when the buffer is drained. -/
theorem NamesLeader.call (prim : Primitives) (hd : NamesLeader leader uid d)
    {input : DriverInput} (huid : input.ctx.myUid = uid)
    (hcall : ∀ channel text participants, input.call ≠ .initiate channel text participants) :
    NamesLeader leader uid (d.call prim input).1 ∧
      ∀ p ∈ (d.call prim input).2.outgoing, StartsBy leader p.2 := by
  unfold RoundDriver.call
  split
  next channel text participants hinput => exact absurd hinput (hcall _ _ _)
  next msg hinput =>
    have hdropped : NamesLeader leader uid (RoundDriver.dropExpired prim input.env input.ctx d) :=
      hd.dropExpired huid
    -- the buffer goes out behind what the message itself has triggered
    have hflush {d : RoundDriver} {action : RoundAction}
        (h : NamesLeader leader uid d ∧ ∀ p ∈ action.outgoing, StartsBy leader p.2) :
        NamesLeader leader uid { d with pendingOutgoing := [] } ∧
          ∀ p ∈ action.outgoing ++ d.pendingOutgoing, StartsBy leader p.2 := by
      refine ⟨⟨fun p hp => absurd hp List.not_mem_nil, h.1.message⟩, fun p hp => ?_⟩
      rcases List.mem_append.mp hp with hp | hp
      · exact h.2 p hp
      · exact h.1.outgoing p hp
    cases msg with
    | dcRoundStart channel roundId leaderId participants deadlineSecs payloadLen =>
      exact hflush (hdropped.onRoundStart rfl)
    | dcRoundShare channel roundId peerUid xoredPayload signature =>
      exact hflush (hdropped.onRoundShare huid rfl)
    | _ => exact hflush ⟨hdropped, fun p hp => absurd hp List.not_mem_nil⟩
  · exact ⟨⟨fun p hp => absurd hp List.not_mem_nil, hd.message⟩, hd.outgoing⟩

end NamesLeader

end RoundDriver

/-! ## Rounds of one initiator -/

namespace Mesh

/-- The states of the runs in which `leader` initiates `text` once and nobody initiates anything
else. The network delivers what it likes, and rounds may expire. -/
inductive RoundBy (prim : Primitives) (ch : MeshChannel) (name leader text : String) : Mesh → Prop
  | initiate {input : DriverInput} {participants : List String} :
      MemberContext ch leader input.ctx → participants.Perm ch.participants →
      input.call = .initiate name text participants →
      RoundBy prim ch name leader text (init.act prim leader input)
  | act {s : Mesh} {uid : String} {input : DriverInput} :
      RoundBy prim ch name leader text s → MemberContext ch uid input.ctx →
      s.Allowed ch name uid input.call →
      (∀ channel text participants, input.call ≠ .initiate channel text participants) →
      RoundBy prim ch name leader text (s.act prim uid input)

/-- Everything that was sent, without the signatures. -/
def transcript (s : Mesh) : Outgoing := s.sent.map fun p => (p.1, p.2.eraseSignature)

/-- Every transcript of a round that `s` initiates is, for some masks, a transcript of a round that
`s'` initiates. -/
def Unlinkable (ch : MeshChannel) (name s s' text : String) : Prop :=
  ∀ prim mesh, RoundBy prim ch name s text mesh →
    ∃ (prim' : Primitives) (ch' : MeshChannel) (mesh' : Mesh), ch'.participants = ch.participants ∧
      RoundBy prim' ch' name s' text mesh' ∧ mesh'.transcript = mesh.transcript

variable {prim : Primitives} {ch : MeshChannel} {name leader text : String} {mesh : Mesh}

/-- The driver of the member that has made a call, and the drivers of the others. -/
theorem forall_drivers_act {I : String → RoundDriver → Prop} {uid : String} {input : DriverInput}
    (hall : ∀ u, I u (mesh.drivers u)) (huid : I uid ((mesh.drivers uid).call prim input).1) :
    ∀ u, I u ((mesh.act prim uid input).drivers u) := by
  intro u
  by_cases heq : u = uid
  · subst heq
    rw [show (mesh.act prim u input).drivers u = _ from Function.update_self _ _ _]
    exact huid
  · rw [show (mesh.act prim uid input).drivers u = _ from Function.update_of_ne heq _ _]
    exact hall u

/-- What the call of the initiator sends. -/
theorem initiate_call {d : RoundDriver} {input : DriverInput} {participants : List String}
    (hcall : input.call = .initiate name text participants) :
    d.call prim input = match RoundDriver.initiate prim input.env d name text participants
        input.ctx with
      | (d, .ok out) => (d, { outgoing := out })
      | (d, .error _) => (d, {}) := by
  obtain ⟨env, ctx, call⟩ := input
  obtain rfl : call = .initiate name text participants := hcall
  rfl

/-- All announcements of the round name its initiator. -/
theorem RoundBy.startsBy (h : RoundBy prim ch name leader text mesh) :
    (∀ u, (mesh.drivers u).NamesLeader leader u) ∧ ∀ p ∈ mesh.sent, StartsBy leader p.2 := by
  induction h with
  | @initiate input participants hctx hperm hcall =>
    -- a new driver has nothing to announce
    have hnew (u : String) : RoundDriver.new.NamesLeader leader u :=
      ⟨fun p hp => absurd hp List.not_mem_nil, fun _ => rfl⟩
    have hfirst : (RoundDriver.new.call prim input).1.NamesLeader leader leader ∧
        ∀ p ∈ (RoundDriver.new.call prim input).2.outgoing, StartsBy leader p.2 := by
      rw [initiate_call hcall]
      obtain ⟨⟨d, res⟩, hinit⟩ : ∃ r, RoundDriver.initiate prim input.env RoundDriver.new name text
        participants input.ctx = r := ⟨_, rfl⟩
      rw [hinit]
      rcases RoundDriver.initiate_cases hinit with ⟨rfl, e, rfl⟩ | ⟨rfl, e, rfl⟩ | ⟨share, hb, rfl⟩
      · exact ⟨hnew _, fun p hp => absurd hp List.not_mem_nil⟩
      · exact ⟨(hnew _).congr rfl (Or.inl rfl), fun p hp => absurd hp List.not_mem_nil⟩
      · rw [hb.state_eq, ← hctx.myUid]
        exact ⟨⟨fun p hp => absurd hp List.not_mem_nil, fun hne => absurd rfl hne⟩,
          RoundDriver.startsBy_announcement⟩
    exact ⟨forall_drivers_act hnew hfirst.1, hfirst.2⟩
  | @act s uid input _ hctx hallowed hcall ih =>
    -- no other call names another leader
    obtain ⟨hdriver, hout⟩ := (ih.1 uid).call prim hctx.myUid hcall
    refine ⟨forall_drivers_act ih.1 hdriver, fun p hp => ?_⟩
    rcases List.mem_append.mp hp with hp | hp
    · exact ih.2 p hp
    · exact hout p hp

/-- A text that fits is announced. -/
theorem RoundBy.exists_start (h : RoundBy prim ch name leader text mesh)
    (hfits : (asBytes text).length + 36 ≤ channelPayloadLen) :
    ∃ p ∈ mesh.sent, ∀ leader', StartsBy leader' p.2 → leader' = leader := by
  induction h with
  | @initiate input participants hctx hperm hcall =>
    obtain ⟨d, share, hbegun, hinit⟩ :=
      hctx.initiate prim input.env RoundDriver.new name hfits hperm
    have hsent : (init.act prim leader input).sent =
        RoundDriver.new.announcement input.ctx name participants := by
      show [] ++ (RoundDriver.new.call prim input).2.outgoing = _
      rw [initiate_call hcall, hinit]
      rfl
    -- there is another participant to announce the round to
    obtain ⟨uid, huid, hne⟩ := ch.exists_ne leader
    refine ⟨(uid, .dcRoundStart name 1 leader participants channelRoundDeadlineSecs
      channelPayloadLen), ?_, fun leader' hleader => Eq.symm hleader⟩
    rw [hsent, RoundDriver.announcement, hctx.myUid]
    exact RoundDriver.mem_toOthers.mpr ⟨hperm.mem_iff.mpr huid, hne, rfl⟩
  | @act s uid input _ hctx hallowed hcall ih =>
    obtain ⟨p, hp, hstart⟩ := ih
    exact ⟨p, List.mem_append_left _ hp, hstart⟩

/-- A text that does not fit sends nothing. -/
theorem RoundBy.sent_eq_nil (h : RoundBy prim ch name leader text mesh)
    (hlong : channelPayloadLen < (asBytes text).length + 36) :
    (∀ u, (mesh.drivers u).pendingOutgoing = []) ∧ mesh.sent = [] := by
  induction h with
  | @initiate input participants hctx hperm hcall =>
    have hquiet : RoundDriver.new.call prim input = (RoundDriver.new, {}) := by
      rw [initiate_call hcall, RoundDriver.initiate, if_pos hlong]
    refine ⟨forall_drivers_act (I := fun _ d => d.pendingOutgoing = []) (fun u => rfl) ?_, ?_⟩
    · rw [show init.drivers leader = RoundDriver.new from rfl, hquiet]
      rfl
    · show [] ++ (RoundDriver.new.call prim input).2.outgoing = []
      rw [hquiet]
      rfl
  | @act s uid input _ hctx hallowed hcall ih =>
    -- nothing can be delivered, and there is nothing to drain
    have hdrain : input.call = .drainPendingOutgoing := by
      cases hinput : input.call with
      | initiate channel text participants => exact absurd hinput (hcall _ _ _)
      | handle msg =>
        rw [hinput] at hallowed
        have hmem : (uid, msg) ∈ s.sent := hallowed
        rw [ih.2] at hmem
        exact absurd hmem List.not_mem_nil
      | drainPendingOutgoing => rfl
    have hquiet : (s.drivers uid).call prim input =
        ((s.drivers uid).drainPendingOutgoing.1, {}) := by
      unfold RoundDriver.call
      rw [hdrain]
      show (_, RoundAction.mk [] (s.drivers uid).pendingOutgoing) = _
      rw [ih.1 uid]
    refine ⟨forall_drivers_act (I := fun _ d => d.pendingOutgoing = []) ih.1 ?_, ?_⟩
    · rw [hquiet]
      rfl
    · show s.sent ++ ((s.drivers uid).call prim input).2.outgoing = []
      rw [hquiet, ih.2]
      rfl

/-- The rounds of two initiators have different transcripts. -/
theorem RoundBy.transcript_ne {prim' : Primitives} {ch' : MeshChannel} {leader' : String}
    {mesh' : Mesh} (h : RoundBy prim ch name leader text mesh)
    (h' : RoundBy prim' ch' name leader' text mesh') (hne : leader ≠ leader')
    (hfits : (asBytes text).length + 36 ≤ channelPayloadLen) :
    mesh'.transcript ≠ mesh.transcript := by
  intro heq
  obtain ⟨p, hp, hstart⟩ := h.exists_start hfits
  have hmem : (p.1, p.2.eraseSignature) ∈ mesh'.transcript :=
    heq ▸ List.mem_map_of_mem hp
  obtain ⟨p', hp', hsame⟩ := List.mem_map.mp hmem
  -- the announcement that names `leader` would be one that names `leader'`
  have hstarts := startsBy_eraseSignature.mpr (h'.startsBy.2 p' hp')
  rw [(Prod.mk.inj hsame).2, startsBy_eraseSignature] at hstarts
  exact hne (hstart leader' hstarts).symm

/-- Every member can initiate a round. -/
theorem exists_roundBy (prim : Primitives) (ch : MeshChannel) (name : String) {uid : String}
    (huid : uid ∈ ch.participants) (text : String) :
    ∃ mesh, RoundBy prim ch name uid text mesh :=
  ⟨_, @RoundBy.initiate _ _ _ _ _ ⟨⟨.stored, .stored, 0, fun _ => 0⟩,
    ⟨uid, .replicate 32 0, ch.edgeKeys uid, ∅⟩, .initiate name text ch.participants⟩ _
    ⟨huid, rfl, rfl⟩ (.refl _) rfl⟩

/-- When transcripts do not tell who initiated a round. For every channel, any two members and any
text, every transcript of the one is, for some masks, a transcript of the other exactly if the two
are the same or the text is too long to be sent at all. In all other cases no transcript of the one
is a transcript of the other. -/
theorem unlinkable_iff (ch : MeshChannel) (name s s' text : String) (hs : s ∈ ch.participants)
    (hs' : s' ∈ ch.participants) :
    (Unlinkable ch name s s' text ↔ s = s' ∨ channelPayloadLen < (asBytes text).length + 36) ∧
      (¬ (s = s' ∨ channelPayloadLen < (asBytes text).length + 36) →
        ∀ prim mesh prim' ch' mesh', RoundBy prim ch name s text mesh →
          RoundBy prim' ch' name s' text mesh' → mesh'.transcript ≠ mesh.transcript) := by
  have hdiffer : ¬ (s = s' ∨ channelPayloadLen < (asBytes text).length + 36) →
      ∀ prim mesh prim' ch' mesh', RoundBy prim ch name s text mesh →
        RoundBy prim' ch' name s' text mesh' → mesh'.transcript ≠ mesh.transcript := by
    rintro hnot prim mesh prim' ch' mesh' h h'
    obtain ⟨hne, hlong⟩ := not_or.mp hnot
    exact h.transcript_ne h' hne (not_lt.mp hlong)
  refine ⟨⟨fun hunlinkable => ?_, fun hcases prim mesh h => ?_⟩, hdiffer⟩
  · by_contra hnot
    obtain ⟨mesh, h⟩ := exists_roundBy .const ch name hs text
    obtain ⟨prim', ch', mesh', -, h', heq⟩ := hunlinkable .const mesh h
    exact hdiffer hnot _ mesh prim' ch' mesh' h h' heq
  · rcases hcases with rfl | hlong
    · exact ⟨prim, ch, mesh, rfl, h, rfl⟩
    -- both transcripts are empty
    · obtain ⟨mesh', h'⟩ := exists_roundBy prim ch name hs' text
      refine ⟨prim, ch, mesh', rfl, h', ?_⟩
      rw [transcript, transcript, (h.sent_eq_nil hlong).2, (h'.sent_eq_nil hlong).2]

/-- Three members, with one key for all edges. -/
def triangle : MeshChannel where
  participants := ["a", "b", "c"]
  edgeKeys _ := HashMap.ofPairs
    [("a", .replicate 32 7), ("b", .replicate 32 7), ("c", .replicate 32 7)]
  nodup := by decide
  two_le := by decide
  symmetric := by
    have hkey : ∀ uid ∈ ["a", "b", "c"], (HashMap.ofPairs [("a", (.replicate 32 7 : Bytes32)),
        ("b", .replicate 32 7), ("c", .replicate 32 7)]).lookup uid = some (.replicate 32 7) := by
      decide
    exact fun i hi j hj _ => ⟨.replicate 32 7, hkey j hj, hkey i hi⟩

/-- Nobody else could have sent the transcript of `a`. -/
theorem unlinkable_iff_triangle : ¬ Unlinkable triangle "#g" "a" "b" "hi" := by
  rw [(unlinkable_iff triangle "#g" "a" "b" "hi" (by decide) (by decide)).1]
  decide

/-- So transcripts of a channel of three members tell who has sent a text. -/
theorem not_unlinkable :
    ¬ ∀ (ch : MeshChannel), 3 ≤ ch.participants.length → ∀ (name s s' text : String),
      s ∈ ch.participants → s' ∈ ch.participants → Unlinkable ch name s s' text := by
  intro hclaim
  have hunlinkable := hclaim triangle (by decide) "#g" "a" "b" "hi" (by decide) (by decide)
  obtain ⟨mesh, h⟩ := exists_roundBy .const triangle "#g" (by decide : "a" ∈ _) "hi"
  obtain ⟨prim', ch', mesh', -, h', heq⟩ := hunlinkable .const mesh h
  exact h.transcript_ne h' (by decide) (by decide) heq

end Mesh

end ChronoShift
