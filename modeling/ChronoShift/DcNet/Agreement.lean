import ChronoShift.DcNet.Mesh

/-!
# Agreement and validity of the rounds of a channel

Every call of a member's driver extends the history consistently (`call_callOk`), so in every
reachable state two texts extracted for one round are equal, and were passed to `initiate`
(`Mesh.extracted_agree`).

The invariant of a member (`NodeInv`) says that nothing has been sent yet for its pending round,
that it announced this round, and that its collectors hold shares the members sent.
-/

namespace ChronoShift

open ToMathlib

namespace History

variable {ch : MeshChannel} {h h' : History} {uid : String} {id : ℕ}

/-- `uid` announces a round. -/
def announce (h : History) (uid : String) (id : ℕ) : History :=
  { h with announced := fun u i => h.announced u i ∨ (u = uid ∧ i = id) }

/-- `uid` sends its share for a round, with `message` embedded. -/
def embed (h : History) (uid : String) (id : ℕ) (message : Option Bytes) : History :=
  { h with embedded := fun u i => if u = uid ∧ i = id then some message else h.embedded u i }

/-- A text is passed to `initiate`. -/
def addText (h : History) (text : String) : History :=
  { h with texts := fun t => h.texts t ∨ t = text }

/-- An announcement adds a round to the history. -/
theorem extends_announce : Extends uid h (h.announce uid id) where
  embedded _ _ _ hm := hm
  announced _ _ ha := Or.inl ha
  texts _ ht := ht
  embedded_frame _ _ _ := rfl
  announced_frame u i hne ha := by
    rcases ha with ha | ⟨heq, -⟩
    · exact ha
    · exact absurd heq hne
  texts_frame _ ht := ht

/-- A text adds to the history. -/
theorem grows_addText {text : String} : Grows h (h.addText text) where
  embedded _ _ _ hm := hm
  announced _ _ ha := ha
  texts _ ht := Or.inl ht

/-- What has just been embedded. -/
theorem embed_embedded_self (h : History) (uid : String) (id : ℕ) (message : Option Bytes) :
    (h.embed uid id message).embedded uid id = some message := if_pos ⟨rfl, rfl⟩

/-- What is embedded has just been so, or was before. -/
theorem embed_embedded_cases {message m : Option Bytes} {u : String} {i : ℕ}
    (hm : (h.embed uid id message).embedded u i = some m) :
    (u = uid ∧ i = id ∧ m = message) ∨ h.embedded u i = some m := by
  change (if u = uid ∧ i = id then some message else h.embedded u i) = some m at hm
  split at hm
  next heq => exact Or.inl ⟨heq.1, heq.2, (Option.some.inj hm).symm⟩
  · exact Or.inr hm

/-- A member embeds once in a round, and so replaces nothing. -/
theorem extends_embed (hnone : h.embedded uid id = none) {message : Option Bytes} :
    Extends uid h (h.embed uid id message) where
  embedded u i m hm := by
    show (if u = uid ∧ i = id then some message else h.embedded u i) = some m
    split
    next heq =>
      rw [heq.1, heq.2, hnone] at hm
      cases hm
    · exact hm
  announced _ _ ha := ha
  texts _ ht := ht
  embedded_frame u i hne := if_neg fun heq => hne heq.1
  announced_frame _ _ _ ha := ha
  texts_frame _ ht := ht

/-- A member announces only rounds for which it has sent nothing. -/
theorem Consistent.announce (hcons : Consistent ch h) (hnone : h.embedded uid id = none) :
    Consistent ch (h.announce uid id) where
  neutral u i hm := by
    obtain ⟨leader, hleader, hann, hlt⟩ := hcons.neutral u i hm
    refine ⟨leader, hleader, Or.inl hann, fun ha => ?_⟩
    rcases ha with ha | ⟨rfl, rfl⟩
    · exact hlt ha
    · change h.embedded u i = some none at hm
      rw [hnone] at hm
      cases hm
  text := hcons.text
  last := hcons.last

/-- A text that has been queued is not embedded yet. -/
theorem Consistent.addText (hcons : Consistent ch h) (text : String) :
    Consistent ch (h.addText text) where
  neutral := hcons.neutral
  text u i msg hm := by
    obtain ⟨hfit, t, ht, heq⟩ := hcons.text u i msg hm
    exact ⟨hfit, t, Or.inl ht, heq⟩
  last := hcons.last

/-- A member answers an announcement it has to answer. -/
theorem Consistent.embed_none (hcons : Consistent ch h) (hnone : h.embedded uid id = none)
    {leader : String} (hleader : leader ∈ ch.participants) (hann : h.announced leader id)
    (hlt : h.announced uid id → leader < uid) : Consistent ch (h.embed uid id none) where
  neutral u i hm := by
    rcases embed_embedded_cases hm with ⟨rfl, rfl, -⟩ | hm
    · exact ⟨leader, hleader, hann, hlt⟩
    · exact hcons.neutral u i hm
  text u i msg hm := by
    rcases embed_embedded_cases hm with ⟨-, -, heq⟩ | hm
    · cases heq
    · exact hcons.text u i msg hm
  last u i msg hm other hother hne := by
    rcases embed_embedded_cases hm with ⟨-, -, heq⟩ | hm
    · cases heq
    · exact (extends_embed hnone).embedded _ _ _ (hcons.last u i msg hm other hother hne)

/-- A member sends its message when all the others have sent a share. None of these can carry a
message itself, since it would have been sent after ours. -/
theorem Consistent.embed_some (hcons : Consistent ch h) (huid : uid ∈ ch.participants)
    (hnone : h.embedded uid id = none) {text : String} (htext : h.texts text)
    (hfit : 36 + (asBytes text).length ≤ channelPayloadLen)
    (hothers : ∀ other ∈ ch.participants, other ≠ uid → ∃ m, h.embedded other id = some m) :
    Consistent ch (h.embed uid id (some (asBytes text))) where
  neutral u i hm := by
    rcases embed_embedded_cases hm with ⟨-, -, heq⟩ | hm
    · cases heq
    · exact hcons.neutral u i hm
  text u i msg hm := by
    rcases embed_embedded_cases hm with ⟨-, -, heq⟩ | hm
    · cases heq
      exact ⟨hfit, text, htext, rfl⟩
    · exact hcons.text u i msg hm
  last u i msg hm other hother hne := by
    rcases embed_embedded_cases hm with ⟨rfl, rfl, -⟩ | hm
    · obtain ⟨m, hother'⟩ := hothers other hother hne
      refine (extends_embed hnone).embedded _ _ _ ?_
      cases m with
      | none => exact hother'
      | some msg' =>
        -- a message of `other` would have gone out last, after our share
        have hlast := hcons.last other i msg' hother' u huid (Ne.symm hne)
        rw [hnone] at hlast
        cases hlast
    · exact (extends_embed hnone).embedded _ _ _ (hcons.last u i msg hm other hother hne)

end History

/-! ## The invariant of a member -/

/-- A message of the mesh: announcements are of announced rounds, shares have been sent. -/
def MessageOk (prim : Primitives) (ch : MeshChannel) (h : History) : PeerMessage → Prop
  | .dcRoundStart _ roundId leaderId participants _ payloadLen =>
    leaderId ∈ ch.participants ∧ h.announced leaderId roundId ∧
      participants.Perm ch.participants ∧ payloadLen = channelPayloadLen
  | .dcRoundShare _ roundId peerUid xoredPayload _ => h.Sent prim ch peerUid roundId xoredPayload
  | _ => True

/-- The driver of `uid` after the history `h`. -/
structure NodeInv (prim : Primitives) (ch : MeshChannel) (h : History) (uid : String)
    (d : RoundDriver) : Prop where
  embedded_le : ∀ id m, h.embedded uid id = some m → id ≤ d.tracker.currentRoundId
  announced_le : ∀ id, h.announced uid id → id ≤ d.tracker.currentRoundId
  /-- The pending round is announced, and nothing has been sent for it. -/
  pending : ∀ id, d.pendingRoundId = some id → h.embedded uid id = none ∧ h.announced uid id
  /-- Our share of the pending round embeds a text passed to `initiate`. -/
  share : ∀ id share signature, d.pendingRoundId = some id →
    d.myShare = some (share, signature) → ∃ text participants, h.texts text ∧
      36 + (asBytes text).length ≤ channelPayloadLen ∧ participants.Perm ch.participants ∧
      computeXorShareSecure prim id uid participants (some (asBytes text)) channelPayloadLen
        (ch.edgeKeys uid) = some share
  message : ∀ msg, d.pendingMessage = some msg → ∃ text, h.texts text ∧ msg = asBytes text
  collectors : ∀ id c, d.collectors.lookup id = some c → h.Collects prim ch id c
  outgoing : ∀ p ∈ d.pendingOutgoing, MessageOk prim ch h p.2

section Mono

variable {prim : Primitives} {ch : MeshChannel} {h h' : History} {u : String}

/-- A message stays accounted for as the history grows. -/
theorem MessageOk.mono (hext : h.Grows h') {msg : PeerMessage}
    (hmsg : MessageOk prim ch h msg) : MessageOk prim ch h' msg := by
  cases msg with
  | dcRoundStart _ roundId leaderId participants _ payloadLen =>
    exact ⟨hmsg.1, hext.announced _ _ hmsg.2.1, hmsg.2.2⟩
  | dcRoundShare _ roundId peerUid xoredPayload _ => exact History.Sent.mono hext hmsg
  | _ => trivial

/-- A collector stays accounted for as the history grows. -/
theorem History.Collects.mono (hext : h.Grows h') {id : ℕ} {c : RoundCollector}
    (hc : h.Collects prim ch id c) : h'.Collects prim ch id c :=
  ⟨hc.wellFormed, hc.roundId, hc.payloadLen, hc.participants,
    fun u share hs => (hc.stored u share hs).mono hext⟩

/-- A longer history keeps the invariant if it embeds and announces nothing new for the member
that would contradict it. -/
theorem NodeInv.mono (hext : h.Grows h') {d : RoundDriver} (hd : NodeInv prim ch h u d)
    (hembedded : ∀ id m, h'.embedded u id = some m → id ≤ d.tracker.currentRoundId)
    (hannounced : ∀ id, h'.announced u id → id ≤ d.tracker.currentRoundId)
    (hpending : ∀ id, d.pendingRoundId = some id → h'.embedded u id = none) :
    NodeInv prim ch h' u d where
  embedded_le := hembedded
  announced_le := hannounced
  pending id hid := ⟨hpending id hid, hext.announced _ _ (hd.pending id hid).2⟩
  share id share signature hid hs := by
    obtain ⟨text, participants, htext, hrest⟩ := hd.share id share signature hid hs
    exact ⟨text, participants, hext.texts text htext, hrest⟩
  message msg hmsg := by
    obtain ⟨text, htext, heq⟩ := hd.message msg hmsg
    exact ⟨text, hext.texts text htext, heq⟩
  collectors id c hc := (hd.collectors id c hc).mono hext
  outgoing p hp := (hd.outgoing p hp).mono hext

/-- What another member does keeps the invariant. -/
theorem NodeInv.frame {uid : String} (hext : h.Extends uid h') {d : RoundDriver} (hne : u ≠ uid)
    (hd : NodeInv prim ch h u d) : NodeInv prim ch h' u d := by
  refine hd.mono hext.toGrows (fun id m hm => ?_) (fun id ha => ?_) (fun id hid => ?_)
  · rw [hext.embedded_frame u id hne] at hm
    exact hd.embedded_le id m hm
  · exact hd.announced_le id (hext.announced_frame u id hne ha)
  · rw [hext.embedded_frame u id hne]
    exact (hd.pending id hid).1

end Mono

namespace NodeInv

variable {prim : Primitives} {ch : MeshChannel} {h : History} {uid : String} {d d' : RoundDriver}
  {env : CallEnv} {ctx : RoundContext}

/-- Changes of fields that the invariant does not read. -/
theorem congr (hd : NodeInv prim ch h uid d) (htracker : d'.tracker = d.tracker)
    (hpending : d'.pendingRoundId = d.pendingRoundId) (hcollectors : d'.collectors = d.collectors)
    (hshare : d'.myShare = d.myShare)
    (hmessage : ∀ msg, d'.pendingMessage = some msg → d.pendingMessage = some msg)
    (hout : ∀ p ∈ d'.pendingOutgoing, MessageOk prim ch h p.2) : NodeInv prim ch h uid d' := by
  refine ⟨?_, ?_, ?_, ?_, fun msg hmsg => hd.message msg (hmessage msg hmsg), ?_, hout⟩
  · rw [htracker]
    exact hd.embedded_le
  · rw [htracker]
    exact hd.announced_le
  · rw [hpending]
    exact hd.pending
  · rw [hpending, hshare]
    exact hd.share
  · rw [hcollectors]
    exact hd.collectors

/-- Nothing has been sent for a round above the counter. -/
theorem embedded_eq_none (hd : NodeInv prim ch h uid d) {id : ℕ}
    (hlt : d.tracker.currentRoundId < id) : h.embedded uid id = none := by
  rw [Option.eq_none_iff_forall_ne_some]
  intro m hm
  exact absurd (hd.embedded_le id m hm) (Nat.not_le.mpr hlt)

/-- Rounds below the counter are below an advanced one. -/
theorem advance (hd : NodeInv prim ch h uid d) : NodeInv prim ch h uid d.advance where
  embedded_le id m hm := Nat.le_succ_of_le (hd.embedded_le id m hm)
  announced_le id ha := Nat.le_succ_of_le (hd.announced_le id ha)
  pending := hd.pending
  share := hd.share
  message := hd.message
  collectors := hd.collectors
  outgoing := hd.outgoing

/-- A pending round that is given up. -/
theorem clearPending (hd : NodeInv prim ch h uid d) : NodeInv prim ch h uid d.clearPending where
  embedded_le := hd.embedded_le
  announced_le := hd.announced_le
  pending id hid := by simp [RoundDriver.clearPending] at hid
  share id share signature hid := by simp [RoundDriver.clearPending] at hid
  message := hd.message
  collectors := hd.collectors
  outgoing := hd.outgoing

/-- A round that is no longer collected. -/
theorem removeCollector (hd : NodeInv prim ch h uid d) (id : ℕ) :
    NodeInv prim ch h uid (d.removeCollector id) where
  embedded_le := hd.embedded_le
  announced_le := hd.announced_le
  pending := hd.pending
  share := hd.share
  message := hd.message
  collectors id' c hc := hd.collectors id' c (RoundDriver.lookup_removeCollector hc)
  outgoing := hd.outgoing

/-- A collector that is accounted for is stored. -/
theorem storeCollector (hd : NodeInv prim ch h uid d) {id : ℕ} {c : RoundCollector}
    (hc : h.Collects prim ch id c) : NodeInv prim ch h uid (d.storeCollector id c) where
  embedded_le := hd.embedded_le
  announced_le := hd.announced_le
  pending := hd.pending
  share := hd.share
  message := hd.message
  collectors id' c' hc' := by
    rcases RoundDriver.lookup_storeCollector hc' with ⟨rfl, rfl⟩ | hc'
    · exact hc
    · exact hd.collectors id' c' hc'
  outgoing := hd.outgoing

end NodeInv

/-! ## Calls -/

/-- The driver of `uid` after it went on from the history `h`. -/
def Progress (prim : Primitives) (ch : MeshChannel) (h : History) (uid : String)
    (d : RoundDriver) : Prop :=
  ∃ h', h.Extends uid h' ∧ h'.Consistent ch ∧ NodeInv prim ch h' uid d

/-- An extracted message carries the text embedded in a share of its round. -/
def ExtractedOk (ch : MeshChannel) (h : History) (m : ExtractedMessage) : Prop :=
  h.texts m.text ∧
    ∃ u ∈ ch.participants, h.embedded u m.roundId = some (some (asBytes m.text))

/-- What a call of the driver of `uid` sends, extracts and leaves behind. -/
def CallOk (prim : Primitives) (ch : MeshChannel) (h : History) (uid : String) (d' : RoundDriver)
    (action : RoundAction) : Prop :=
  ∃ h', h.Extends uid h' ∧ h'.Consistent ch ∧ NodeInv prim ch h' uid d' ∧
    (∀ p ∈ action.outgoing, MessageOk prim ch h' p.2) ∧
    ∀ m ∈ action.extracted, ExtractedOk ch h' m

section Collects

variable {prim : Primitives} {ch : MeshChannel} {h : History} {id : ℕ} {c c' : RoundCollector}

/-- A new collector for the members holds no shares. -/
theorem History.collects_new (channel : String) (id : ℕ) {participants : List String}
    (hperm : participants.Perm ch.participants) (deadlineSecs now : ℕ) :
    h.Collects prim ch id (RoundCollector.new channel id participants deadlineSecs
      channelPayloadLen now) where
  wellFormed := RoundCollector.wellFormed_new _ _ _ _ _ _
  roundId := rfl
  payloadLen := rfl
  participants := by
    show participants.dedup.Perm ch.participants
    rw [(hperm.nodup_iff.mpr ch.nodup).dedup]
    exact hperm
  stored u share hs := by simp [RoundCollector.new] at hs

/-- An accepted share was sent. -/
theorem History.Collects.submitShare (hc : h.Collects prim ch id c) {u : String} {share : Bytes}
    (hs : h.Sent prim ch u id share) (hok : c.submitShare u share = .ok c') :
    h.Collects prim ch id c' := by
  have hwf := hc.wellFormed.submitShare hok
  obtain ⟨-, -, -, rfl⟩ := RoundCollector.submitShare_eq_ok.mp hok
  refine ⟨hwf, hc.roundId, hc.payloadLen, hc.participants, fun u' share' hs' => ?_⟩
  change (c.sharesReceived.insert u share).lookup u' = some share' at hs'
  rw [HashMap.lookup_insert_ite] at hs'
  split at hs'
  next heq =>
    rw [heq, ← Option.some.inj hs']
    exact hs
  · exact hc.stored u' share' hs'

/-- A share that was sent is collected. -/
theorem History.Collects.trySubmit (hc : h.Collects prim ch id c) {u : String} {share : Bytes}
    (hs : h.Sent prim ch u id share) : h.Collects prim ch id (c.trySubmit u share) := by
  rcases c.trySubmit_cases u share with heq | hok
  · rw [heq]
    exact hc
  · exact hc.submitShare hs hok

end Collects

section Steps

variable {prim : Primitives} {ch : MeshChannel} {h : History} {uid : String} {d d' : RoundDriver}
  {env : CallEnv} {ctx : RoundContext} {channel : String} {roundId : ℕ} {action : RoundAction}

/-- A node that has not moved. -/
theorem NodeInv.progress (hcons : h.Consistent ch) (hd : NodeInv prim ch h uid d) :
    Progress prim ch h uid d := ⟨h, .refl uid h, hcons, hd⟩

/-- A call that sends and extracts nothing. -/
theorem NodeInv.quiet (hcons : h.Consistent ch) (hd : NodeInv prim ch h uid d) :
    CallOk prim ch h uid d {} :=
  ⟨h, .refl uid h, hcons, hd, fun _ hp => absurd hp List.not_mem_nil,
    fun _ hm => absurd hm List.not_mem_nil⟩

/-- A step from the state reached so far. -/
theorem Progress.bind (hd : Progress prim ch h uid d)
    (hstep : ∀ h', h'.Consistent ch → NodeInv prim ch h' uid d → Progress prim ch h' uid d') :
    Progress prim ch h uid d' := by
  obtain ⟨h', hext, hcons, hinv⟩ := hd
  obtain ⟨h'', hext', hcons', hinv'⟩ := hstep h' hcons hinv
  exact ⟨h'', hext.trans hext', hcons', hinv'⟩

/-- The retries and the rounds already shown do not matter, and a queued message may be dropped. -/
theorem Progress.congr (hd : Progress prim ch h uid d) (htracker : d'.tracker = d.tracker)
    (hpending : d'.pendingRoundId = d.pendingRoundId) (hcollectors : d'.collectors = d.collectors)
    (hshare : d'.myShare = d.myShare)
    (hmessage : ∀ msg, d'.pendingMessage = some msg → d.pendingMessage = some msg)
    (hout : d'.pendingOutgoing = d.pendingOutgoing) : Progress prim ch h uid d' := by
  obtain ⟨h', hext, hcons, hinv⟩ := hd
  refine ⟨h', hext, hcons, hinv.congr htracker hpending hcollectors hshare hmessage ?_⟩
  rw [hout]
  exact hinv.outgoing

/-- A round of our own is announced at an id above all that went before. -/
theorem NodeInv.begun (hctx : Mesh.MemberContext ch uid ctx) (hcons : h.Consistent ch)
    (hd : NodeInv prim ch h uid d) {text : String} {participants : List String} {share : Bytes}
    (htext : h.texts text) (hperm : participants.Perm ch.participants)
    (hb : d.Begun prim env ctx d' channel text participants share) :
    ∃ h', h.Extends uid h' ∧ h'.Consistent ch ∧ NodeInv prim ch h' uid d' ∧
      ∀ p ∈ d.announcement ctx channel participants, MessageOk prim ch h' p.2 := by
  obtain ⟨hfit, -, -, hshare, rfl⟩ := hb
  have hnone : h.embedded uid (d.tracker.currentRoundId + 1) = none :=
    hd.embedded_eq_none (Nat.lt_succ_self _)
  refine ⟨h.announce uid (d.tracker.currentRoundId + 1), History.extends_announce,
    hcons.announce hnone, ?_, ?_⟩
  -- the old pending round is overwritten, so its fields are given anew and the rest is kept
  · have hadv : NodeInv prim ch (h.announce uid (d.tracker.currentRoundId + 1)) uid d.advance := by
      refine hd.advance.mono History.extends_announce.toGrows hd.advance.embedded_le ?_
        fun id hid => (hd.pending id hid).1
      rintro id (ha | ⟨-, rfl⟩)
      · exact hd.advance.announced_le id ha
      · exact le_refl _
    have hstore := hadv.storeCollector
      (History.collects_new channel (d.tracker.currentRoundId + 1) hperm
        channelRoundDeadlineSecs env.now)
    refine ⟨hstore.embedded_le, hstore.announced_le, ?_, ?_, ?_, hstore.collectors,
      hstore.outgoing⟩
    · intro id hid
      obtain rfl := Option.some.inj hid
      exact ⟨hnone, Or.inr ⟨rfl, rfl⟩⟩
    · intro id share' signature hid hs
      obtain rfl := Option.some.inj hid
      cases hs
      rw [hctx.myUid, hctx.edgeKeys] at hshare
      exact ⟨text, participants, htext, by omega, hperm, hshare⟩
    · intro msg hmsg
      cases hmsg
      exact ⟨text, htext, rfl⟩
  · intro p hp
    rw [(RoundDriver.mem_toOthers.mp hp).2.2, hctx.myUid]
    exact ⟨hctx.mem, Or.inr ⟨rfl, rfl⟩, hperm, rfl⟩

/-- A retry announces a new round, and embeds the queued text in it. -/
theorem Progress.retryPending (hctx : Mesh.MemberContext ch uid ctx)
    (hd : Progress prim ch h uid d) {participants : List String}
    (hperm : participants.Perm ch.participants) :
    Progress prim ch h uid (RoundDriver.retryPending prim env d channel participants ctx) := by
  refine RoundDriver.retryPending_induct hd ?_ ?_ ?_ ?_
  · exact fun d hd => hd.congr rfl rfl rfl rfl (fun _ hm => nomatch hm) rfl
  · exact fun d n hd => hd.congr rfl rfl rfl rfl (fun _ hm => hm) rfl
  · exact fun d hd => hd.bind fun h' hcons hinv => hinv.advance.progress hcons
  · intro d d₁ msg share hd hmsg hb
    refine hd.bind fun h' hcons hinv => ?_
    -- the queued bytes are those of a text, so the lossy decoding gives the text back
    obtain ⟨text, htext, rfl⟩ := hinv.message msg hmsg
    rw [fromUtf8Lossy_asBytes] at hb
    obtain ⟨h'', hext, hcons', hinv', hann⟩ := hinv.begun hctx hcons htext hperm hb
    refine ⟨h'', hext, hcons', hinv'.congr rfl rfl rfl rfl (fun _ hm => hm) fun p hp => ?_⟩
    rcases List.mem_append.mp hp with hp | hp
    · exact (hinv.outgoing p hp).mono hext.toGrows
    · exact hann p hp

/-- Expired rounds are given up or retried. -/
theorem Progress.dropExpired (hctx : Mesh.MemberContext ch uid ctx)
    (hd : Progress prim ch h uid d) :
    Progress prim ch h uid (RoundDriver.dropExpired prim env ctx d) := by
  refine RoundDriver.dropExpired_induct hd fun d id hd => hd.bind fun h' hcons hinv => ?_
  have hcleared := (hinv.removeCollector id).clearPending
  rcases RoundDriver.expireRound_cases id rfl with ⟨-, heq⟩ | ⟨-, heq⟩ | ⟨c, -, hc, heq⟩
  · rw [heq]
    exact (hinv.removeCollector id).progress hcons
  · rw [heq]
    exact hcleared.progress hcons
  · rw [heq]
    exact (hcleared.progress hcons).retryPending hctx
      ((env.uidOrder.perm _).trans (hinv.collectors id c hc).participants)

/-- A completed round is closed or retried. -/
theorem Progress.finishRound (hctx : Mesh.MemberContext ch uid ctx) {c : RoundCollector}
    (hperm : c.participants.Perm ch.participants)
    (hother : d.pendingRoundId ≠ some roundId → NodeInv prim ch h uid d)
    (hmine : d.pendingRoundId = some roundId → NodeInv prim ch h uid d.clearPending)
    (hcons : h.Consistent ch) :
    Progress prim ch h uid (RoundDriver.finishRound prim env d channel roundId c ctx).1 := by
  refine RoundDriver.finishRound_induct (fun emitted => ⟨fun hne => ?_, fun heq => ?_⟩) ?_ ?_ ?_
  · have hd := ((hother hne).removeCollector roundId).progress hcons
    exact hd.congr rfl rfl rfl rfl (fun _ hm => hm) rfl
  · have hd := ((hmine heq).removeCollector roundId).progress hcons
    exact hd.congr rfl rfl rfl rfl (fun _ hm => hm) rfl
  · exact fun d hd => hd.congr rfl rfl rfl rfl (fun _ hm => nomatch hm) rfl
  · exact fun d hd => hd.congr rfl rfl rfl rfl (fun _ hm => hm) rfl
  · exact fun d hd => hd.retryPending hctx ((env.uidOrder.perm _).trans hperm)

/-- A share is sent for a round that is not pending any more. -/
theorem NodeInv.embed (hd : NodeInv prim ch h uid d) (hnone : h.embedded uid roundId = none)
    (hle : roundId ≤ d.tracker.currentRoundId) (hpending : d.pendingRoundId ≠ some roundId)
    (message : Option Bytes) : NodeInv prim ch (h.embed uid roundId message) uid d := by
  refine hd.mono (History.extends_embed hnone).toGrows (fun id m hm => ?_) hd.announced_le
    fun id hid => ?_
  · rcases History.embed_embedded_cases hm with ⟨-, rfl, -⟩ | hm
    · exact hle
    · exact hd.embedded_le id m hm
  · show (if uid = uid ∧ id = roundId then some message else h.embedded uid id) = none
    rw [if_neg]
    · exact (hd.pending id hid).1
    · rintro ⟨-, rfl⟩
      exact hpending hid

/-- An announcement is ignored or answered with a neutral share. -/
theorem onRoundStart_callOk (hctx : Mesh.MemberContext ch uid ctx) (hcons : h.Consistent ch)
    (hd : NodeInv prim ch h uid d) {leaderId : String} {participants : List String}
    {deadlineSecs payloadLen : ℕ}
    (hmsg : MessageOk prim ch h
      (.dcRoundStart channel roundId leaderId participants deadlineSecs payloadLen))
    (hstart : RoundDriver.onRoundStart prim env d channel roundId leaderId participants
      deadlineSecs payloadLen ctx = (d', action)) : CallOk prim ch h uid d' action := by
  obtain ⟨hleader, hann, hperm, rfl⟩ := hmsg
  rcases RoundDriver.onRoundStart_cases hstart with ⟨rfl, rfl⟩ | ⟨d₁, hentered, hd'⟩
  · exact hd.quiet hcons
  · -- we have sent nothing for the round, and if we announced it too, then we lost against the
    -- leader
    obtain ⟨hd₁, hnone, hle, hpending, hlt⟩ : NodeInv prim ch h uid d₁ ∧
        h.embedded uid roundId = none ∧ roundId ≤ d₁.tracker.currentRoundId ∧
        d₁.pendingRoundId ≠ some roundId ∧ (h.announced uid roundId → leaderId < uid) := by
      rcases hentered with hnext | ⟨hpending, hlt⟩
      · have hnot : ¬ h.announced uid roundId := by
          intro ha
          have hle := hd.announced_le _ ha
          omega
        exact ⟨hd.advance, hd.embedded_eq_none (by omega), hnext.le,
          fun hp => hnot (hd.pending _ hp).2, fun ha => absurd ha hnot⟩
      · have hcleared := (hd.removeCollector roundId).clearPending
        refine ⟨hcleared.congr rfl rfl ?_ rfl (fun _ hm => hm) hcleared.outgoing,
          (hd.pending _ hpending).1, hd.announced_le _ (hd.pending _ hpending).2, ?_,
          fun _ => hctx.myUid ▸ hlt⟩
        · simp only [RoundDriver.abortPendingRound, hpending]
          rfl
        · simp [RoundDriver.abortPendingRound]
    rcases hd' with ⟨rfl, rfl⟩ | ⟨share, -, hshare, rfl, rfl⟩
    · exact hd₁.quiet hcons
    · rw [hctx.myUid, hctx.edgeKeys] at hshare
      have hsent : (h.embed uid roundId none).Sent prim ch uid roundId share :=
        ⟨none, participants, h.embed_embedded_self uid roundId none, hperm, hshare⟩
      refine ⟨h.embed uid roundId none, History.extends_embed hnone,
        hcons.embed_none hnone hleader hann hlt, ?_, ?_, fun m hm => absurd hm List.not_mem_nil⟩
      · rw [hctx.myUid]
        exact (hd₁.embed hnone hle hpending none).storeCollector
          ((History.collects_new channel roundId hperm deadlineSecs env.now).trySubmit hsent)
      · intro p hp
        rw [(RoundDriver.mem_toOthers.mp hp).2.2, hctx.myUid]
        exact hsent

/-- The texts extracted from a complete collector. -/
theorem extraction_ok (hcons : h.Consistent ch) {c : RoundCollector}
    (hc : h.Collects prim ch roundId c) (hcomplete : c.isComplete = true) {m : ExtractedMessage}
    (hm : m ∈ RoundDriver.extraction prim d channel roundId c) : ExtractedOk ch h m := by
  obtain ⟨hid, htext⟩ := RoundDriver.mem_extraction hm
  obtain ⟨u, hu, text, htexts, hembedded, heq⟩ := hcons.extractText_of_isComplete hc hcomplete
  rw [heq] at htext
  obtain rfl := Option.some.inj htext
  exact ⟨htexts, u, hu, hid ▸ hembedded⟩

/-- An extracted text stays accounted for as the history grows. -/
theorem ExtractedOk.mono {h' : History} (hext : h.Grows h') {m : ExtractedMessage}
    (hm : ExtractedOk ch h m) : ExtractedOk ch h' m := by
  obtain ⟨htext, u, hu, hembedded⟩ := hm
  exact ⟨hext.texts _ htext, u, hu, hext.embedded _ _ _ hembedded⟩

/-- The end of a complete round: the collector is settled after the history `h`, in which the
round is not pending any more. -/
theorem finishRound_callOk (hctx : Mesh.MemberContext ch uid ctx) (hcons : h.Consistent ch)
    {c : RoundCollector} {out : Outgoing} (hc : h.Collects prim ch roundId c)
    (hcomplete : c.isComplete = true)
    (hother : d.pendingRoundId ≠ some roundId → NodeInv prim ch h uid d)
    (hmine : d.pendingRoundId = some roundId → NodeInv prim ch h uid d.clearPending)
    (hout : ∀ p ∈ out, MessageOk prim ch h p.2) :
    CallOk prim ch h uid (RoundDriver.finishRound prim env d channel roundId c ctx).1
      ⟨RoundDriver.extraction prim d channel roundId c, out⟩ := by
  obtain ⟨h', hext, hcons', hinv⟩ :=
    Progress.finishRound hctx hc.participants hother hmine hcons
  exact ⟨h', hext, hcons', hinv, fun p hp => (hout p hp).mono hext.toGrows,
    fun m hm => (extraction_ok hcons hc hcomplete hm).mono hext.toGrows⟩

/-- A call that goes on from a longer history. -/
theorem CallOk.trans {h' : History} (hext : h.Extends uid h')
    (hcall : CallOk prim ch h' uid d action) : CallOk prim ch h uid d action := by
  obtain ⟨h'', hext', hrest⟩ := hcall
  exact ⟨h'', hext.trans hext', hrest⟩

/-- A share is refused or stored; if all the others have answered our own round, our message
goes out. -/
theorem onRoundShare_callOk (hctx : Mesh.MemberContext ch uid ctx) (hcons : h.Consistent ch)
    (hd : NodeInv prim ch h uid d) {peerUid : String} {share signature : Bytes}
    (hmsg : h.Sent prim ch peerUid roundId share)
    (hshare : RoundDriver.onRoundShare prim env d channel roundId peerUid share signature ctx =
      (d', action)) : CallOk prim ch h uid d' action := by
  rcases RoundDriver.onRoundShare_cases hshare with ⟨rfl, rfl⟩ | ⟨c, c₁, c₂, d₁, out, hst⟩
  · exact hd.quiet hcons
  · obtain ⟨hlookup, hsubmit, hbroadcast, hresult⟩ := hst
    have hc₁ : h.Collects prim ch roundId c₁ :=
      (hd.collectors _ _ hlookup).submitShare hmsg hsubmit
    rcases RoundDriver.broadcastOwnShare_cases hbroadcast with ⟨rfl, rfl, rfl⟩ | ⟨s, sig, hrel⟩
    · have hstore := hd.storeCollector hc₁
      split_ifs at hresult with hcomplete
      · cases hresult
        exact finishRound_callOk hctx hcons hc₁ hcomplete (fun _ => hstore)
          (fun _ => hstore.clearPending) fun p hp => absurd hp List.not_mem_nil
      · cases hresult
        exact hstore.quiet hcons
    · -- our share embeds a text, and every other member has sent a share for the round
      obtain ⟨text, participants, htext, hfit, hperm, hcompute⟩ :=
        hd.share roundId s sig hrel.pending hrel.share_eq
      obtain ⟨hnone, hann⟩ := hd.pending roundId hrel.pending
      have hcomplete := hrel.isComplete hc₁.wellFormed
        (by rw [(computeXorShareSecure_eq_some hcompute).1, hc₁.payloadLen])
      rw [if_pos hcomplete] at hresult
      have hothers : ∀ other ∈ ch.participants, other ≠ uid →
          ∃ m, h.embedded other roundId = some m := by
        intro other hother hne
        obtain ⟨-, -, hall⟩ :=
          hc₁.wellFormed.missingParticipants_eq_singleton.mp hrel.missing
        rw [hctx.myUid] at hall
        obtain ⟨share', hshare'⟩ := HashMap.mem_iff_exists_lookup.mp
          (hall other (hc₁.participants.mem_iff.mpr hother) hne)
        obtain ⟨m, -, hm, -⟩ := hc₁.stored other share' hshare'
        exact ⟨m, hm⟩
      obtain ⟨hpending, -, -, -, rfl, rfl, rfl⟩ := hrel
      cases hresult
      rw [hctx.myUid] at hcomplete ⊢
      have hext : h.Extends uid (h.embed uid roundId (some (asBytes text))) :=
        History.extends_embed hnone
      have hsent : (h.embed uid roundId (some (asBytes text))).Sent prim ch uid roundId s :=
        ⟨_, participants, h.embed_embedded_self uid roundId _, hperm, hcompute⟩
      -- the round ends in the same call, so the invariant is only needed without it
      have hc₂ := (hc₁.mono hext.toGrows).trySubmit hsent
      have hcleared := (hd.clearPending.embed hnone (hd.announced_le _ hann)
        (by simp [RoundDriver.clearPending]) (some (asBytes text))).storeCollector hc₂
      refine CallOk.trans hext (finishRound_callOk hctx
        (hcons.embed_some hctx.mem hnone htext hfit hothers) hc₂ hcomplete
        (fun hne => absurd hpending hne) (fun _ => ?_) fun p hp => ?_)
      · exact hcleared.congr rfl rfl rfl rfl (fun _ hm => hm) hcleared.outgoing
      · rw [(RoundDriver.mem_toOthers.mp hp).2.2]
        exact hsent

/-- The buffered announcements go out with the result. -/
theorem CallOk.flush (hcall : CallOk prim ch h uid d action) :
    CallOk prim ch h uid { d with pendingOutgoing := [] }
      { action with outgoing := action.outgoing ++ d.pendingOutgoing } := by
  obtain ⟨h', hext, hcons, hinv, hout, hextracted⟩ := hcall
  refine ⟨h', hext, hcons, hinv.congr rfl rfl rfl rfl (fun _ hm => hm)
    (fun p hp => absurd hp List.not_mem_nil), fun p hp => ?_, hextracted⟩
  rcases List.mem_append.mp hp with hp | hp
  · exact hout p hp
  · exact hinv.outgoing p hp

/-- Handling a message that a member has sent. -/
theorem handle_callOk (hctx : Mesh.MemberContext ch uid ctx) (hcons : h.Consistent ch)
    (hd : NodeInv prim ch h uid d) {msg : PeerMessage} (hmsg : MessageOk prim ch h msg) :
    CallOk prim ch h uid (RoundDriver.handle prim env d msg ctx).1
      (RoundDriver.handle prim env d msg ctx).2 := by
  obtain ⟨h', hext, hcons', hinv⟩ :
      Progress prim ch h uid (RoundDriver.dropExpired prim env ctx d) :=
    (hd.progress hcons).dropExpired hctx
  have hmsg' : MessageOk prim ch h' msg := hmsg.mono hext.toGrows
  refine CallOk.trans hext (CallOk.flush ?_)
  cases msg with
  | dcRoundStart _ _ _ _ _ _ => exact onRoundStart_callOk hctx hcons' hinv hmsg' rfl
  | dcRoundShare _ _ _ _ _ => exact onRoundShare_callOk hctx hcons' hinv hmsg' rfl
  | _ => exact hinv.quiet hcons'

/-- What a call may be given after the history `h`. -/
def CallAllowed (prim : Primitives) (ch : MeshChannel) (h : History) : DriverCall → Prop
  | .initiate _ text participants => h.texts text ∧ participants.Perm ch.participants
  | .handle msg => MessageOk prim ch h msg
  | .drainPendingOutgoing => True

/-- Every call of a member's driver extends the history consistently. -/
theorem call_callOk (hcons : h.Consistent ch) (hd : NodeInv prim ch h uid d)
    {input : DriverInput} (hctx : Mesh.MemberContext ch uid input.ctx)
    (hallowed : CallAllowed prim ch h input.call) :
    CallOk prim ch h uid (d.call prim input).1 (d.call prim input).2 := by
  rcases d.call_cases prim input with
    ⟨channel, text, participants, hinput, hcall | hcall | ⟨d', share, hb, hcall⟩⟩ |
      ⟨msg, hinput, hcall⟩ | ⟨-, hcall⟩
  · rw [hcall]
    exact hd.quiet hcons
  · rw [hcall]
    exact hd.advance.quiet hcons
  · rw [hinput] at hallowed
    rw [hcall]
    obtain ⟨h', hext, hcons', hinv, hann⟩ := hd.begun hctx hcons hallowed.1 hallowed.2 hb
    exact ⟨h', hext, hcons', hinv, hann, fun m hm => absurd hm List.not_mem_nil⟩
  · rw [hinput] at hallowed
    rw [hcall]
    exact handle_callOk hctx hcons hd hallowed
  · rw [hcall]
    exact (hd.quiet hcons).flush

end Steps

/-! ## Runs of the mesh -/

/-- The mesh after the history `h`. -/
structure MeshInv (prim : Primitives) (ch : MeshChannel) (h : History) (s : Mesh) : Prop where
  consistent : h.Consistent ch
  nodes : ∀ u ∈ ch.participants, NodeInv prim ch h u (s.drivers u)
  sent : ∀ p ∈ s.sent, MessageOk prim ch h p.2
  extracted : ∀ m ∈ s.extracted, ExtractedOk ch h m
  texts : ∀ text, h.texts text → text ∈ s.initiated

section Runs

variable {prim : Primitives} {ch : MeshChannel} {h : History} {s : Mesh}

/-- Nothing has happened yet. -/
theorem meshInv_init :
    MeshInv prim ch ⟨fun _ _ => none, fun _ _ => False, fun _ => False⟩ Mesh.init where
  consistent := {
    neutral := fun _ _ hm => nomatch hm
    text := fun _ _ _ hm => nomatch hm
    last := fun _ _ _ hm => nomatch hm }
  nodes u hu := {
    embedded_le := fun _ _ hm => nomatch hm
    announced_le := fun _ ha => ha.elim
    pending := fun _ hid => nomatch hid
    share := fun _ _ _ hid => nomatch hid
    message := fun _ hmsg => nomatch hmsg
    collectors := fun _ _ hc => by simp [Mesh.init, RoundDriver.new] at hc
    outgoing := fun p hp => absurd hp List.not_mem_nil }
  sent p hp := absurd hp List.not_mem_nil
  extracted m hm := absurd hm List.not_mem_nil
  texts _ ht := ht.elim

/-- A user has a text to send. -/
theorem MeshInv.addText (hs : MeshInv prim ch h s) (text : String) :
    MeshInv prim ch (h.addText text) { s with initiated := text :: s.initiated } where
  consistent := hs.consistent.addText text
  nodes u hu := by
    have hd := hs.nodes u hu
    exact hd.mono History.grows_addText hd.embedded_le hd.announced_le
      fun id hid => (hd.pending id hid).1
  sent p hp := (hs.sent p hp).mono History.grows_addText
  extracted m hm := (hs.extracted m hm).mono History.grows_addText
  texts t ht := by
    rcases ht with ht | rfl
    · exact List.mem_cons_of_mem _ (hs.texts t ht)
    · exact List.mem_cons_self

/-- A call of one member keeps the invariants of all members. -/
theorem MeshInv.call (hs : MeshInv prim ch h s) {uid : String} {d' : RoundDriver}
    {action : RoundAction} (hcall : CallOk prim ch h uid d' action) :
    ∃ h', MeshInv prim ch h' { s with
      drivers := Function.update s.drivers uid d'
      sent := s.sent ++ action.outgoing
      extracted := s.extracted ++ action.extracted } := by
  obtain ⟨h', hext, hcons, hinv, hout, hextracted⟩ := hcall
  refine ⟨h', hcons, fun u hu => ?_, fun p hp => ?_, fun m hm => ?_,
    fun t ht => hs.texts t (hext.texts_frame t ht)⟩
  · by_cases heq : u = uid
    · rw [heq]
      show NodeInv prim ch h' uid (Function.update s.drivers uid d' uid)
      rw [Function.update_self]
      exact hinv
    · show NodeInv prim ch h' u (Function.update s.drivers uid d' u)
      rw [Function.update_of_ne heq]
      exact (hs.nodes u hu).frame hext heq
  · rcases List.mem_append.mp hp with hp | hp
    · exact (hs.sent p hp).mono hext.toGrows
    · exact hout p hp
  · rcases List.mem_append.mp hm with hm | hm
    · exact (hs.extracted m hm).mono hext.toGrows
    · exact hextracted m hm

/-- A call that the history allows. -/
theorem MeshInv.act (hs : MeshInv prim ch h s) {uid : String} {input : DriverInput}
    (hctx : Mesh.MemberContext ch uid input.ctx) (hallowed : CallAllowed prim ch h input.call) :
    ∃ h', MeshInv prim ch h' { s with
      drivers := Function.update s.drivers uid ((s.drivers uid).call prim input).1
      sent := s.sent ++ ((s.drivers uid).call prim input).2.outgoing
      extracted := s.extracted ++ ((s.drivers uid).call prim input).2.extracted } :=
  hs.call (call_callOk hs.consistent (hs.nodes uid hctx.mem) hctx hallowed)

/-- Every reachable state has a history. -/
theorem Mesh.Reachable.exists_history {name : String} (hreach : s.Reachable prim ch name) :
    ∃ h, MeshInv prim ch h s := by
  induction hreach with
  | init => exact ⟨_, meshInv_init⟩
  | @act s uid input _ hctx hallowed ih =>
    obtain ⟨h, hs⟩ := ih
    rw [Mesh.act]
    cases hcall : input.call with
    | initiate channel text participants =>
      rw [hcall] at hallowed
      -- the text enters the history before the call is made
      exact (hs.addText text).act hctx (by rw [hcall]; exact ⟨Or.inr rfl, hallowed.2⟩)
    | handle msg =>
      rw [hcall] at hallowed
      exact hs.act hctx (by rw [hcall]; exact hs.sent _ hallowed)
    | drainPendingOutgoing => exact hs.act hctx (by rw [hcall]; trivial)

end Runs

/-- Agreement and validity. In every state that the drivers of a channel can reach, whatever the
network delivers and whichever rounds expire, two texts extracted for one round are equal, and
every extracted text was passed to `initiate` by some member. -/
theorem Mesh.extracted_agree (prim : Primitives) (ch : MeshChannel) (name : String) (s : Mesh)
    (hreach : s.Reachable prim ch name) (m m' : ExtractedMessage) (hm : m ∈ s.extracted)
    (hm' : m' ∈ s.extracted) (hround : m.roundId = m'.roundId) :
    m.text = m'.text ∧ m.text ∈ s.initiated := by
  obtain ⟨h, hs⟩ := hreach.exists_history
  obtain ⟨htext, u, hu, hembedded⟩ := hs.extracted m hm
  obtain ⟨-, u', -, hembedded'⟩ := hs.extracted m' hm'
  refine ⟨asBytes_injective ?_, hs.texts _ htext⟩
  exact hs.consistent.bearing_unique hu hembedded (hround ▸ hembedded')

/-- Two members with one edge key. -/
def pairChannel : MeshChannel where
  participants := ["a", "b"]
  edgeKeys u := if u = "a" then HashMap.ofPairs [("b", .replicate 32 7)]
    else HashMap.ofPairs [("a", .replicate 32 7)]
  nodup := by decide
  two_le := by decide
  symmetric := by
    intro i hi j hj hne
    refine ⟨.replicate 32 7, ?_⟩
    simp only [List.mem_cons, List.not_mem_nil, or_false] at hi hj
    rcases hi with rfl | rfl <;> rcases hj with rfl | rfl
    · exact absurd rfl hne
    · decide
    · decide
    · exact absurd rfl hne

/-- A call by a member of `pairChannel`, with the clock at zero. -/
def pairInput (uid : String) (call : DriverCall) : DriverInput :=
  ⟨⟨.stored, .stored, 0, fun _ => 0⟩, ⟨uid, .replicate 32 1, pairChannel.edgeKeys uid, ∅⟩, call⟩

/-- Deliver the `i`-th message that was sent. -/
def pairDeliver (s : Mesh) (i : ℕ) : Mesh :=
  match s.sent[i]? with
  | some (uid, msg) =>
    if uid ∈ pairChannel.participants then s.act .const uid (pairInput uid (.handle msg)) else s
  | none => s

/-- A delivery among the two is a step of the mesh. -/
theorem reachable_pairDeliver {s : Mesh} (hs : s.Reachable .const pairChannel "#g") (i : ℕ) :
    (pairDeliver s i).Reachable .const pairChannel "#g" := by
  unfold pairDeliver
  split
  next uid msg hget =>
    split_ifs with hmem
    · exact .act hs ⟨hmem, rfl, rfl⟩ (List.mem_of_getElem? hget)
    · exact hs
  · exact hs

/-- A whole round of two members: `a` initiates, and the announcement, the answer and the
message-bearing share are delivered. -/
def pairRound : Mesh :=
  pairDeliver (pairDeliver (pairDeliver
    (Mesh.init.act .const "a" (pairInput "a" (.initiate "#g" "hi" ["a", "b"]))) 0) 1) 2

set_option maxRecDepth 100000 in
/-- In `pairRound` both members extract the text of the round. -/
theorem Mesh.extracted_agree_pairRound :
    pairRound.extracted = [⟨"#g", "hi", 1⟩, ⟨"#g", "hi", 1⟩] ∧
      ("hi" = "hi" ∧ "hi" ∈ pairRound.initiated) := by
  have hextracted : pairRound.extracted = [⟨"#g", "hi", 1⟩, ⟨"#g", "hi", 1⟩] := by
    decide +kernel
  have hinit : (Mesh.init.act .const "a" (pairInput "a"
      (.initiate "#g" "hi" ["a", "b"]))).Reachable .const pairChannel "#g" :=
    .act .init ⟨by decide, rfl, rfl⟩ ⟨rfl, .refl _⟩
  have hreach : pairRound.Reachable .const pairChannel "#g" :=
    reachable_pairDeliver (reachable_pairDeliver (reachable_pairDeliver hinit 0) 1) 2
  exact ⟨hextracted, Mesh.extracted_agree .const pairChannel "#g" pairRound hreach
    ⟨"#g", "hi", 1⟩ ⟨"#g", "hi", 1⟩ (by simp [hextracted]) (by simp [hextracted]) rfl⟩

end ChronoShift
