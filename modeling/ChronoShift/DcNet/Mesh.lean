import ChronoShift.DcNet.Cancellation
import ChronoShift.DcNet.RoundDriverCases
import Mathlib.Data.Finset.Max
import Mathlib.Data.String.Basic

/-!
# The mesh of drivers of one channel

The members of a channel run one driver each. The network may deliver any message that was sent
to a member, at any time and any number of times, or never; the clock and the iteration orders
may be different in every call.

A `History` records what the drivers did: which kind of share a member sent for which round,
which rounds it announced, and the texts that were passed to `initiate`. It is not part of the
state, and the drivers cannot read it.

* `Mesh.Reachable`: the runs of the mesh;
* `History.Consistent`: for a round with a message-bearing share, all other shares are neutral;
  a neutral share answers an announcement, of a smaller uid if the member announced too;
* `History.Consistent.extractText_of_isComplete`: a complete collector yields the text of the one
  message-bearing share of its round.
-/

namespace ChronoShift

open ToMathlib

/-- A channel: its members and their edge keys. -/
structure MeshChannel where
  participants : List String
  edgeKeys : String → HashMap String Bytes32
  nodup : participants.Nodup
  two_le : 2 ≤ participants.length
  symmetric : SymmetricKeys participants edgeKeys

/-- There is a member besides any given one. -/
theorem MeshChannel.exists_ne (ch : MeshChannel) (uid : String) :
    ∃ u ∈ ch.participants, u ≠ uid := by
  by_contra hnone
  have hsub : ch.participants.Subperm [uid] := ch.nodup.subperm fun u hu => by
    by_contra hne
    exact hnone ⟨u, hu, fun heq => hne (heq ▸ List.mem_singleton_self _)⟩
  have hlen : ch.participants.length ≤ 1 := hsub.length_le
  exact absurd (ch.two_le.trans hlen) (by decide)

/-- Every member can compute its share, from any order of the members. -/
theorem MeshChannel.exists_share (prim : Primitives) (ch : MeshChannel) (roundId : ℕ)
    {uid : String} (huid : uid ∈ ch.participants) {participants : List String}
    (hperm : participants.Perm ch.participants) (message : Option Bytes)
    (hfit : ∀ msg, message = some msg → 36 + msg.length ≤ channelPayloadLen) :
    ∃ share, computeXorShareSecure prim roundId uid participants message channelPayloadLen
      (ch.edgeKeys uid) = some share := by
  refine Option.isSome_iff_exists.mp (computeXorShareSecure_isSome.mpr
    ⟨hperm.length_eq ▸ ch.two_le, hperm.mem_iff.mpr huid, fun other hother hne => ?_, hfit⟩)
  obtain ⟨key, hkey, -⟩ := ch.symmetric uid huid other (hperm.mem_iff.mp hother) hne.symm
  exact HashMap.mem_iff_exists_lookup.mpr ⟨key, hkey⟩

/-- The drivers of the members, and everything they have sent and extracted. -/
structure Mesh where
  drivers : String → RoundDriver
  sent : Outgoing
  extracted : List ExtractedMessage
  /-- The texts passed to `initiate`. -/
  initiated : List String

namespace Mesh

/-- All drivers are new. -/
def init : Mesh := ⟨fun _ => RoundDriver.new, [], [], []⟩

/-- The mesh after a call of the driver of `uid`. -/
def act (prim : Primitives) (s : Mesh) (uid : String) (input : DriverInput) : Mesh where
  drivers := Function.update s.drivers uid ((s.drivers uid).call prim input).1
  sent := s.sent ++ ((s.drivers uid).call prim input).2.outgoing
  extracted := s.extracted ++ ((s.drivers uid).call prim input).2.extracted
  initiated := match input.call with
    | .initiate _ text _ => text :: s.initiated
    | _ => s.initiated

/-- The calls that can be made on the driver of `uid`: a member initiates rounds of the channel,
and handles messages that were sent to it. -/
def Allowed (ch : MeshChannel) (name : String) (s : Mesh) (uid : String) : DriverCall → Prop
  | .initiate channel _ participants => channel = name ∧ participants.Perm ch.participants
  | .handle msg => (uid, msg) ∈ s.sent
  | .drainPendingOutgoing => True

/-- The context a member passes into its driver's calls. The signing key and the keys on record
may be different in every call. -/
structure MemberContext (ch : MeshChannel) (uid : String) (ctx : RoundContext) : Prop where
  mem : uid ∈ ch.participants
  myUid : ctx.myUid = uid
  edgeKeys : ctx.edgeKeys = ch.edgeKeys uid

/-- A member that initiates a text which fits announces a round. -/
theorem MemberContext.initiate {ch : MeshChannel} {uid : String} {ctx : RoundContext}
    (hctx : MemberContext ch uid ctx) (prim : Primitives) (env : CallEnv) (d : RoundDriver)
    (channel : String) {text : String} (hfits : (asBytes text).length + 36 ≤ channelPayloadLen)
    {participants : List String} (hperm : participants.Perm ch.participants) :
    ∃ d' share, RoundDriver.Begun prim env ctx d d' channel text participants share ∧
      d.initiate prim env channel text participants ctx =
        (d', .ok (d.announcement ctx channel participants)) := by
  have hmem : ctx.myUid ∈ participants := hperm.mem_iff.mpr (hctx.myUid ▸ hctx.mem)
  have htwo : 2 ≤ participants.length := hperm.length_eq ▸ ch.two_le
  have hmember : ctx.myUid ∈ ch.participants := hperm.mem_iff.mp hmem
  obtain ⟨share, hshare⟩ := ch.exists_share prim (d.tracker.currentRoundId + 1) hmember hperm
    (some (asBytes text)) fun msg hmsg => by
      obtain rfl := Option.some.inj hmsg
      omega
  rw [hctx.myUid, ← hctx.edgeKeys, ← hctx.myUid] at hshare
  refine ⟨_, share, ⟨hfits, htwo, hmem, hshare, rfl⟩, ?_⟩
  rw [RoundDriver.initiate, if_neg (by omega), if_neg (by rw [not_or, not_not]; exact
    ⟨by omega, hmem⟩)]
  dsimp only
  rw [show (d.tracker.nextRound).currentRoundId = d.tracker.currentRoundId + 1 from rfl, hshare]
  rfl

/-- The states reachable by calls of the members' drivers. -/
inductive Reachable (prim : Primitives) (ch : MeshChannel) (name : String) : Mesh → Prop
  | init : Reachable prim ch name init
  | act {s : Mesh} {uid : String} {input : DriverInput} :
      Reachable prim ch name s → MemberContext ch uid input.ctx →
      s.Allowed ch name uid input.call → Reachable prim ch name (s.act prim uid input)

end Mesh

/-! ## Histories -/

/-- What the members did. -/
structure History where
  /-- The message embedded in the share a member sent for a round. -/
  embedded : String → ℕ → Option (Option Bytes)
  /-- The rounds a member announced. -/
  announced : String → ℕ → Prop
  /-- The texts passed to `initiate`. -/
  texts : String → Prop

namespace History

variable {prim : Primitives} {ch : MeshChannel} {h h' h'' : History} {uid : String}

/-- The share that `uid` sent for a round. -/
def Sent (prim : Primitives) (ch : MeshChannel) (h : History) (uid : String) (roundId : ℕ)
    (share : Bytes) : Prop :=
  ∃ message participants, h.embedded uid roundId = some message ∧
    participants.Perm ch.participants ∧
    computeXorShareSecure prim roundId uid participants message channelPayloadLen
      (ch.edgeKeys uid) = some share

/-- What the tie-break and the share-last rule achieve. -/
structure Consistent (ch : MeshChannel) (h : History) : Prop where
  /-- A neutral share answers an announcement. A member that announced the round as well has
  answered a smaller uid. -/
  neutral : ∀ uid id, h.embedded uid id = some none → ∃ leader ∈ ch.participants,
    h.announced leader id ∧ (h.announced uid id → leader < uid)
  /-- A message-bearing share carries a text passed to `initiate` that fits the payload. -/
  text : ∀ uid id msg, h.embedded uid id = some (some msg) →
    36 + msg.length ≤ channelPayloadLen ∧ ∃ text, h.texts text ∧ msg = asBytes text
  /-- A message-bearing share is sent last. -/
  last : ∀ uid id msg, h.embedded uid id = some (some msg) →
    ∀ other ∈ ch.participants, other ≠ uid → h.embedded other id = some none

/-- Everything that happened in `h` happened in `h'`. -/
structure Grows (h h' : History) : Prop where
  embedded : ∀ u id m, h.embedded u id = some m → h'.embedded u id = some m
  announced : ∀ u id, h.announced u id → h'.announced u id
  texts : ∀ text, h.texts text → h'.texts text

/-- The history goes on, by actions of the driver of `uid` only. -/
structure Extends (uid : String) (h h' : History) : Prop extends Grows h h' where
  embedded_frame : ∀ u id, u ≠ uid → h'.embedded u id = h.embedded u id
  announced_frame : ∀ u id, u ≠ uid → h'.announced u id → h.announced u id
  texts_frame : ∀ text, h'.texts text → h.texts text

theorem Extends.refl (uid : String) (h : History) : Extends uid h h :=
  ⟨⟨fun _ _ _ hm => hm, fun _ _ ha => ha, fun _ ht => ht⟩, fun _ _ _ => rfl,
    fun _ _ _ ha => ha, fun _ ht => ht⟩

theorem Extends.trans (hext : Extends uid h h') (hext' : Extends uid h' h'') :
    Extends uid h h'' where
  embedded u id m hm := hext'.embedded u id m (hext.embedded u id m hm)
  announced u id ha := hext'.announced u id (hext.announced u id ha)
  texts text ht := hext'.texts text (hext.texts text ht)
  embedded_frame u id hne := (hext'.embedded_frame u id hne).trans (hext.embedded_frame u id hne)
  announced_frame u id hne ha :=
    hext.announced_frame u id hne (hext'.announced_frame u id hne ha)
  texts_frame text ht := hext.texts_frame text (hext'.texts_frame text ht)

theorem Sent.mono (hext : Grows h h') {u : String} {id : ℕ} {share : Bytes}
    (hs : Sent prim ch h u id share) : Sent prim ch h' u id share := by
  obtain ⟨message, participants, hm, hperm, heq⟩ := hs
  exact ⟨message, participants, hext.embedded u id message hm, hperm, heq⟩

/-- Two message-bearing shares of one round are the same share. -/
theorem Consistent.bearing_unique (hcons : Consistent ch h) {u u' : String} {id : ℕ}
    {msg msg' : Bytes} (hu : u ∈ ch.participants) (hmsg : h.embedded u id = some (some msg))
    (hmsg' : h.embedded u' id = some (some msg')) : msg = msg' := by
  by_cases heq : u = u'
  · subst heq
    rw [hmsg] at hmsg'
    cases hmsg'
    rfl
  -- the share of `u'` was sent last, so the share of `u` is neutral
  · have hneutral := hcons.last u' id msg' hmsg' u hu heq
    rw [hmsg] at hneutral
    cases hneutral

/-- If every member has sent a share for a round, one of them carries a message: the smallest uid
that announced the round cannot have answered another announcement. -/
theorem Consistent.exists_bearing (hcons : Consistent ch h) {id : ℕ}
    (hall : ∀ u ∈ ch.participants, ∃ m, h.embedded u id = some m) :
    ∃ u ∈ ch.participants, ∃ msg, h.embedded u id = some (some msg) := by
  by_contra hnone
  have hneutral : ∀ u ∈ ch.participants, h.embedded u id = some none := by
    intro u hu
    obtain ⟨m, hm⟩ := hall u hu
    cases m with
    | none => exact hm
    | some msg => exact absurd ⟨u, hu, msg, hm⟩ hnone
  -- the members that announced the round form a finite set, and it has a smallest element
  classical
  let announcers := ch.participants.toFinset.filter fun u => h.announced u id
  have hmem : ∀ u, u ∈ announcers ↔ u ∈ ch.participants ∧ h.announced u id := by
    intro u
    rw [Finset.mem_filter, List.mem_toFinset]
  obtain ⟨u, hu⟩ := List.exists_mem_of_length_pos (Nat.lt_of_lt_of_le Nat.two_pos ch.two_le)
  obtain ⟨leader, hleader, hann, -⟩ := hcons.neutral u id (hneutral u hu)
  obtain ⟨least, hleast, hmin⟩ :=
    announcers.exists_min_image (fun u => u) ⟨leader, (hmem leader).mpr ⟨hleader, hann⟩⟩
  obtain ⟨hleastmem, hleastann⟩ := (hmem least).mp hleast
  -- the neutral share of that element would answer a still smaller one
  obtain ⟨smaller, hsmaller, hsann, hlt⟩ := hcons.neutral least id (hneutral least hleastmem)
  exact absurd (hlt hleastann) (not_lt.mpr (hmin smaller ((hmem smaller).mpr ⟨hsmaller, hsann⟩)))

/-- The collector of a round holds shares the members sent for it. -/
structure Collects (prim : Primitives) (ch : MeshChannel) (h : History) (id : ℕ)
    (c : RoundCollector) : Prop where
  wellFormed : c.WellFormed
  roundId : c.roundId = id
  payloadLen : c.payloadLen = channelPayloadLen
  participants : c.participants.Perm ch.participants
  stored : ∀ u share, c.sharesReceived.lookup u = some share → Sent prim ch h u id share

/-- A complete collector yields the text of the one message-bearing share of its round. -/
theorem Consistent.extractText_of_isComplete (hcons : Consistent ch h) {id : ℕ}
    {c : RoundCollector} (hc : Collects prim ch h id c) (hcomplete : c.isComplete = true) :
    ∃ u ∈ ch.participants, ∃ text, h.texts text ∧
      h.embedded u id = some (some (asBytes text)) ∧
      RoundDriver.extractText prim c = some text := by
  have hall := hc.wellFormed.isComplete_iff.mp hcomplete
  -- pick every member's share, with the message and the participant list it was computed from
  have hpick : ∀ u, ∃ share message participants, u ∈ ch.participants →
      c.sharesReceived.lookup u = some share ∧ h.embedded u id = some message ∧
      participants.Perm ch.participants ∧
      computeXorShareSecure prim id u participants message channelPayloadLen
        (ch.edgeKeys u) = some share := by
    intro u
    by_cases hu : u ∈ ch.participants
    · obtain ⟨share, hshare⟩ :=
        HashMap.mem_iff_exists_lookup.mp (hall u (hc.participants.mem_iff.mpr hu))
      obtain ⟨message, participants, hm, hperm, heq⟩ := hc.stored u share hshare
      exact ⟨share, message, participants, fun _ => ⟨hshare, hm, hperm, heq⟩⟩
    · exact ⟨[], none, [], fun hu' => absurd hu' hu⟩
  choose share message lists hspec using hpick
  -- exactly one of the shares carries a message
  obtain ⟨sender, hsender, msg, hmsg⟩ :=
    hcons.exists_bearing fun u hu => ⟨message u, (hspec u hu).2.1⟩
  obtain ⟨hfit, text, htext, rfl⟩ := hcons.text sender id msg hmsg
  refine ⟨sender, hsender, text, htext, hmsg, ?_⟩
  have hsendermsg : message sender = some (asBytes text) :=
    Option.some.inj ((hspec sender hsender).2.1.symm.trans hmsg)
  have hothers : ∀ u ∈ ch.participants, u ≠ sender → message u = none := fun u hu hne =>
    Option.some.inj ((hspec u hu).2.1.symm.trans (hcons.last sender id _ hmsg u hu hne))
  have hunpad : c.extractMessage.bind (unpadMessage prim) = some (asBytes text) := by
    refine RoundCollector.unpad_extractMessage lists message hc.wellFormed ch.nodup
      (fun u => hc.participants.mem_iff) ch.symmetric (fun u hu => (hspec u hu).2.2.1) ?_
      (fun u hu => (hspec u hu).1) hsender hsendermsg hothers ?_ ?_
    · rw [hc.roundId, hc.payloadLen]
      exact fun u hu => (hspec u hu).2.2.2
    · rw [hc.payloadLen]
      exact hfit
    · rw [channelPayloadLen] at hfit
      omega
  rw [RoundDriver.extractText, hunpad, Option.bind_some, fromUtf8_asBytes]

end History

end ChronoShift
