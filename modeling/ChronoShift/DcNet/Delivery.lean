import ChronoShift.DcNet.Agreement
import ChronoShift.DcNet.Transcript

/-!
# Delivery of a round

One member initiates a text, and the network delivers every message exactly once, in any order.
A driver that has not seen the announcement of a round has no collector for it and drops its
shares, and a dropped share is not sent again. So a round delivers its text if no share overtakes
the announcement, and then it delivers it to everybody, exactly once.

The states of a driver in such a round are known exactly (`SoloRound.Phase`), and so is what is in
flight (`SoloRound.Due`): an announcement to every member that has not seen it, and a share of every
member that has sent one to every member that does not have it.

* `Exchange.Run`: the runs in which every message is delivered at most once;
* `SoloRound.handle_start`, `SoloRound.handle_share`: the steps of one driver;
* `Exchange.delivered_of_inOrder`: when nothing is in flight, everybody has the text.
-/

namespace ChronoShift

open ToMathlib

/-- The message announces a round. -/
def PeerMessage.isStart : PeerMessage → Bool
  | .dcRoundStart _ _ _ _ _ _ => true
  | _ => false

/-- The message is a share. -/
def PeerMessage.isShare : PeerMessage → Bool
  | .dcRoundShare _ _ _ _ _ => true
  | _ => false

/-- The drivers of the members, the messages in flight, and what each member has extracted. -/
structure Exchange where
  drivers : String → RoundDriver
  inFlight : Outgoing
  extracted : String → List ExtractedMessage

namespace Exchange

/-- All drivers are new, and nothing is in flight. -/
def init : Exchange := ⟨fun _ => RoundDriver.new, [], fun _ => []⟩

/-- The exchange after a call of the driver of `uid`. -/
def act (prim : Primitives) (s : Exchange) (uid : String) (input : DriverInput) : Exchange where
  drivers := Function.update s.drivers uid ((s.drivers uid).call prim input).1
  inFlight := s.inFlight ++ ((s.drivers uid).call prim input).2.outgoing
  extracted := Function.update s.extracted uid
    (s.extracted uid ++ ((s.drivers uid).call prim input).2.extracted)

/-- Deliver one message: it leaves the network, and its target handles it. -/
def deliver (prim : Primitives) (s : Exchange) (p : String × PeerMessage) (env : CallEnv)
    (ctx : RoundContext) : Exchange :=
  { s with inFlight := s.inFlight.erase p }.act prim p.1 ⟨env, ctx, .handle p.2⟩

/-- The context of an honest member: it signs with its own key, and the keys on record are those
that the members sign with. -/
structure HonestContext (prim : Primitives) (ch : MeshChannel) (keys : String → Bytes32)
    (uid : String) (ctx : RoundContext) : Prop extends Mesh.MemberContext ch uid ctx where
  signingKey : ctx.signingKey = keys uid
  knownKeys : ∀ peer keyHex vk, ctx.knownKeys.lookup peer = some keyHex →
    parseVerifyingKey prim keyHex = some vk → vk = prim.verifyingKey (keys peer)

/-- The runs in which `leader` initiates `text`, nobody initiates anything else, no round expires,
and messages are delivered at most once, where `Ready` says which of those in flight may be
delivered next. -/
inductive Run (prim : Primitives) (ch : MeshChannel) (keys : String → Bytes32)
    (name leader text : String) (Ready : Exchange → String × PeerMessage → Prop) : Exchange → Prop
  | initiate {env : CallEnv} {ctx : RoundContext} {participants : List String} :
      HonestContext prim ch keys leader ctx → participants.Perm ch.participants →
      Run prim ch keys name leader text Ready
        (init.act prim leader ⟨env, ctx, .initiate name text participants⟩)
  | deliver {s : Exchange} {p : String × PeerMessage} {env : CallEnv} {ctx : RoundContext} :
      Run prim ch keys name leader text Ready s → p ∈ s.inFlight →
      HonestContext prim ch keys p.1 ctx → (s.drivers p.1).expiredRounds env = [] → Ready s p →
      Run prim ch keys name leader text Ready (s.deliver prim p env ctx)

/-- No share overtakes an announcement: when a member is handed a share, no announcement to it is
in flight. -/
def InOrder (s : Exchange) (p : String × PeerMessage) : Prop :=
  p.2.isShare = true → ∀ q ∈ s.inFlight, q.1 = p.1 → q.2.isStart = false

instance (s : Exchange) : DecidablePred s.InOrder := fun _ => inferInstanceAs (Decidable (_ → _))

end Exchange

/-! ## The states of a driver in a round -/

/-- A round of one initiator: who initiates what, the order in which the initiator lists the
members, the keys they sign with, and their shares. -/
structure SoloRound (prim : Primitives) (ch : MeshChannel) where
  name : String
  leader : String
  text : String
  participants : List String
  keys : String → Bytes32
  share : String → Bytes
  leader_mem : leader ∈ ch.participants
  perm : participants.Perm ch.participants
  fits : (asBytes text).length + 36 ≤ channelPayloadLen
  share_eq : ∀ uid ∈ ch.participants, computeXorShareSecure prim 1 uid participants
    (if uid = leader then some (asBytes text) else none) channelPayloadLen (ch.edgeKeys uid) =
      some (share uid)

namespace SoloRound

/-- Where a driver is in the round: it has not seen the announcement, it collects shares, or it has
extracted the text. -/
inductive Phase where
  | waiting
  | collecting (c : RoundCollector)
  | finished

/-- A driver in the phase has the share of a member. -/
def Phase.Has : Phase → String → Prop
  | .waiting, _ => False
  | .collecting c, uid => uid ∈ c.sharesReceived
  | .finished, _ => True

variable {prim : Primitives} {ch : MeshChannel} (r : SoloRound prim ch)

/-- The announcement of the round. -/
def startMsg : PeerMessage :=
  .dcRoundStart r.name 1 r.leader r.participants channelRoundDeadlineSecs channelPayloadLen

/-- The signature of a member on its share. -/
def signature (uid : String) : Bytes := signShare prim (r.keys uid) r.name 1 (r.share uid)

/-- The share of a member. -/
def shareMsg (uid : String) : PeerMessage :=
  .dcRoundShare r.name 1 uid (r.share uid) (r.signature uid)

/-- What everybody extracts. -/
def extractedMsg : ExtractedMessage := ⟨r.name, r.text, 1⟩

/-- The state of the driver of `uid`. -/
def driver (uid : String) : Phase → RoundDriver
  | .waiting => .new
  | .collecting c =>
    if uid = r.leader then
      RoundDriver.new.advance.beginRound 1 c (asBytes r.text) (r.share uid) (r.signature uid)
    else RoundDriver.new.advance.storeCollector 1 c
  | .finished => { RoundDriver.new.advance with emitted := [1] }

/-- A collector of the round. -/
structure CollectorOk (c : RoundCollector) : Prop where
  wellFormed : c.WellFormed
  roundId : c.roundId = 1
  payloadLen : c.payloadLen = channelPayloadLen
  participants : c.participants.Perm ch.participants
  stored : ∀ peer share, c.sharesReceived.lookup peer = some share → share = r.share peer

/-- A new collector for the round. -/
theorem collectorOk_new (now : ℕ) : r.CollectorOk (RoundCollector.new r.name 1 r.participants
    channelRoundDeadlineSecs channelPayloadLen now) := by
  refine ⟨RoundCollector.wellFormed_new _ _ _ _ _ _, rfl, rfl, ?_, fun peer share hshare => ?_⟩
  · show r.participants.dedup.Perm ch.participants
    rw [(r.perm.nodup_iff.mpr ch.nodup).dedup]
    exact r.perm
  · simp [RoundCollector.new] at hshare

variable {r}

theorem length_share {uid : String} (huid : uid ∈ ch.participants) :
    (r.share uid).length = channelPayloadLen :=
  (computeXorShareSecure_eq_some (r.share_eq uid huid)).1

/-- A member's collector accepts a share that it does not have. -/
theorem CollectorOk.submitShare {peer : String} {c : RoundCollector} (hc : r.CollectorOk c)
    (hpeer : peer ∈ ch.participants) (hnot : peer ∉ c.sharesReceived) :
    ∃ c', c.submitShare peer (r.share peer) = .ok c' ∧ r.CollectorOk c' ∧
      ∀ u, u ∈ c'.sharesReceived ↔ u = peer ∨ u ∈ c.sharesReceived := by
  have hok : c.submitShare peer (r.share peer) = .ok { c with
      sharesReceived := c.sharesReceived.insert peer (r.share peer) } :=
    RoundCollector.submitShare_eq_ok.mpr ⟨hc.participants.mem_iff.mpr hpeer, hnot,
      (length_share hpeer).trans hc.payloadLen.symm, rfl⟩
  refine ⟨_, hok, ⟨hc.wellFormed.submitShare hok, hc.roundId, hc.payloadLen, hc.participants,
    fun u share hshare => ?_⟩, fun u => AList.mem_insert _⟩
  change (c.sharesReceived.insert peer (r.share peer)).lookup u = some share at hshare
  rw [HashMap.lookup_insert_ite] at hshare
  split at hshare
  next heq => rw [heq, ← Option.some.inj hshare]
  next => exact hc.stored u share hshare

/-- A collector with the shares of all members yields the text. -/
theorem CollectorOk.extractText {c : RoundCollector} (hc : r.CollectorOk c)
    (hall : ∀ u ∈ ch.participants, u ∈ c.sharesReceived) :
    RoundDriver.extractText prim c = some r.text := by
  have hlookup : ∀ u ∈ ch.participants, c.sharesReceived.lookup u = some (r.share u) := by
    intro u hu
    obtain ⟨share, hshare⟩ := HashMap.mem_iff_exists_lookup.mp (hall u hu)
    rw [hshare, hc.stored u share hshare]
  have hfits := r.fits
  rw [channelPayloadLen] at hfits
  have hunpad : c.extractMessage.bind (unpadMessage prim) = some (asBytes r.text) := by
    refine RoundCollector.unpad_extractMessage (fun _ => r.participants)
      (fun u => if u = r.leader then some (asBytes r.text) else none) hc.wellFormed ch.nodup
      (fun u => hc.participants.mem_iff) ch.symmetric (fun u _ => r.perm) ?_ hlookup r.leader_mem
      (if_pos rfl) (fun u _ hne => if_neg hne) ?_ ?_
    · rw [hc.roundId, hc.payloadLen]
      exact r.share_eq
    · rw [hc.payloadLen, channelPayloadLen]
      omega
    · omega
  rw [RoundDriver.extractText, hunpad, Option.bind_some, fromUtf8_asBytes]

/-! ## The steps of a driver -/

section Steps

variable {env : CallEnv} {ctx : RoundContext} {uid peer : String} {c : RoundCollector}

theorem nodup_toOthers {participants : List String} (hnodup : participants.Nodup) (myUid : String)
    (msg : PeerMessage) : (RoundDriver.toOthers myUid participants msg).Nodup :=
  (hnodup.filter _).map fun _ _ heq => (Prod.mk.inj heq).1

/-- Nothing is dropped while nothing expires. -/
theorem dropExpired_of_nil {d : RoundDriver} (hexpired : d.expiredRounds env = []) :
    RoundDriver.dropExpired prim env ctx d = d := by
  rw [RoundDriver.dropExpired, hexpired]
  rfl

/-- A member buffers nothing in the round. -/
theorem pendingOutgoing_driver (uid : String) (phase : Phase) :
    (r.driver uid phase).pendingOutgoing = [] := by
  unfold driver
  split
  · rfl
  · split_ifs <;> rfl
  · rfl

theorem flush_eq {d : RoundDriver} (hout : d.pendingOutgoing = []) (action : RoundAction) :
    (({ d with pendingOutgoing := [] }, { action with
      outgoing := action.outgoing ++ d.pendingOutgoing }) : RoundDriver × RoundAction) =
        (d, action) := by
  rw [hout, List.append_nil, ← hout]

/-- A member answers the announcement, and holds its own share. -/
theorem handle_start (huid : uid ∈ ch.participants) (hne : uid ≠ r.leader)
    (hctx : Exchange.HonestContext prim ch r.keys uid ctx)
    (hexpired : (r.driver uid .waiting).expiredRounds env = []) :
    ∃ c, RoundDriver.handle prim env (r.driver uid .waiting) r.startMsg ctx =
        (r.driver uid (.collecting c),
          ⟨[], RoundDriver.toOthers uid r.participants (r.shareMsg uid)⟩) ∧
      r.CollectorOk c ∧ ∀ u, u ∈ c.sharesReceived ↔ u = uid := by
  obtain ⟨c, hsubmit, hc, hmem⟩ :=
    (r.collectorOk_new env.now).submitShare huid (AList.notMem_empty uid)
  refine ⟨c, ?_, hc, fun u => ?_⟩
  · have hshare := r.share_eq uid huid
    rw [if_neg hne] at hshare
    have hanswer : RoundDriver.participate prim env RoundDriver.new.advance r.name 1 r.participants
        channelRoundDeadlineSecs channelPayloadLen ctx = (r.driver uid (.collecting c),
          ⟨[], RoundDriver.toOthers uid r.participants (r.shareMsg uid)⟩) := by
      rw [RoundDriver.participate, hctx.myUid, hctx.edgeKeys, hctx.signingKey,
        if_neg (not_not.mpr (r.perm.mem_iff.mpr huid)), hshare]
      dsimp only
      rw [RoundCollector.trySubmit, hsubmit, driver, if_neg hne]
      rfl
    -- a new driver expects round 1
    have hstart : RoundDriver.onRoundStart prim env RoundDriver.new r.name 1 r.leader
        r.participants channelRoundDeadlineSecs channelPayloadLen ctx =
          RoundDriver.participate prim env RoundDriver.new.advance r.name 1 r.participants
            channelRoundDeadlineSecs channelPayloadLen ctx := rfl
    rw [startMsg, RoundDriver.handle, dropExpired_of_nil hexpired]
    dsimp only
    rw [show r.driver uid .waiting = RoundDriver.new from rfl, hstart, hanswer]
    exact flush_eq (pendingOutgoing_driver _ _) _
  · rw [hmem]
    exact or_iff_left (AList.notMem_empty u)

/-- The shares of honest members are admitted. -/
theorem shareAdmitted_shareMsg
    (hverify : ∀ key msg, prim.verify (prim.verifyingKey key) msg (prim.sign key msg) = true)
    (hctx : Exchange.HonestContext prim ch r.keys uid ctx) (peer : String) :
    RoundDriver.shareAdmitted prim ctx r.name 1 peer (r.share peer) (r.signature peer) = true := by
  rw [RoundDriver.shareAdmitted]
  split
  · rfl
  next keyHex hkey =>
    split
    next vk hvk =>
      rw [hctx.knownKeys peer keyHex vk hkey hvk]
      exact hverify _ _
    · rfl

/-- The end of the round: the text is extracted, and nothing is left. -/
theorem finishRound_eq (uid : String) {d : RoundDriver}
    (htext : RoundDriver.extractText prim c = some r.text)
    (hd : d = RoundDriver.new.advance.storeCollector 1 c ∨ ∃ share signature,
      d = { (RoundDriver.new.advance.beginRound 1 c (asBytes r.text) share signature) with
        myShareBroadcast := true }) :
    RoundDriver.finishRound prim env d r.name 1 c ctx =
      (r.driver uid .finished, [r.extractedMsg]) := by
  have hemitted : d.emitted = [] := by
    rcases hd with rfl | ⟨share, signature, rfl⟩ <;> rfl
  have hextraction : RoundDriver.extraction prim d r.name 1 c = [r.extractedMsg] := by
    rw [RoundDriver.extraction, htext, hemitted]
    rfl
  rw [RoundDriver.finishRound, hextraction]
  rcases hd with rfl | ⟨share, signature, rfl⟩ <;> rfl

/-- What handling a share comes to: the share is stored, and if it was the last one that was
missing, the text is extracted; the initiator's own share goes out with that. -/
structure Collected (r : SoloRound prim ch) (uid peer : String) (c c' : RoundCollector)
    (phase : Phase) (out : Outgoing) (texts : List ExtractedMessage) : Prop where
  collector : r.CollectorOk c'
  mem_iff : ∀ u, u ∈ c'.sharesReceived ↔ u = peer ∨ u ∈ c.sharesReceived
  outcome : (phase = .collecting c' ∧ out = [] ∧ texts = [] ∧
      ∃ u ∈ ch.participants, u ∉ c'.sharesReceived ∧ u ≠ uid) ∨
    (phase = .finished ∧ texts = [r.extractedMsg] ∧ out.Nodup ∧
      (∀ p, p ∈ out ↔ uid = r.leader ∧ p.1 ∈ ch.participants ∧ p.1 ≠ uid ∧
        p.2 = r.shareMsg uid) ∧
      ∀ u ∈ ch.participants, u ≠ uid → u ∈ c'.sharesReceived)

/-- An admitted share that the collector accepts. -/
theorem onRoundShare_of_submitShare {d d₁ : RoundDriver} {channel : String} {roundId : ℕ}
    {share signature : Bytes} {c₁ c₂ : RoundCollector} {out : Outgoing}
    (hadmitted : RoundDriver.shareAdmitted prim ctx channel roundId peer share signature = true)
    (hlookup : d.collectors.lookup roundId = some c) (hsubmit : c.submitShare peer share = .ok c₁)
    (hbroadcast : RoundDriver.broadcastOwnShare env d channel roundId c₁ ctx = (d₁, c₂, out)) :
    RoundDriver.onRoundShare prim env d channel roundId peer share signature ctx =
      if c₂.isComplete then
        ((RoundDriver.finishRound prim env (d₁.storeCollector roundId c₂) channel roundId c₂ ctx).1,
          ⟨(RoundDriver.finishRound prim env (d₁.storeCollector roundId c₂) channel roundId c₂
            ctx).2, out⟩)
      else (d₁.storeCollector roundId c₂, ⟨[], out⟩) := by
  rw [RoundDriver.onRoundShare, hadmitted, if_neg (by decide), hlookup]
  dsimp only
  rw [hsubmit]
  dsimp only
  rw [hbroadcast]
  rfl

/-- A member other than the initiator stores the share. -/
theorem onRoundShare_member (hne : uid ≠ r.leader) (huid : uid ∈ ch.participants)
    (hpeer : peer ∈ ch.participants) (hc : r.CollectorOk c) (hnot : peer ∉ c.sharesReceived)
    (hown : uid ∈ c.sharesReceived) {signature : Bytes} (hadmitted : RoundDriver.shareAdmitted prim
      ctx r.name 1 peer (r.share peer) signature = true) :
    ∃ c' phase out texts, Collected r uid peer c c' phase out texts ∧
      RoundDriver.onRoundShare prim env (r.driver uid (.collecting c)) r.name 1 peer
        (r.share peer) signature ctx = (r.driver uid phase, ⟨texts, out⟩) := by
  obtain ⟨c', hsubmit, hc', hmem⟩ := hc.submitShare hpeer hnot
  have hdriver (c : RoundCollector) : r.driver uid (.collecting c) =
      RoundDriver.new.advance.storeCollector 1 c := if_neg hne
  -- the round is not ours, so there is nothing to release
  have hquiet : RoundDriver.broadcastOwnShare env (RoundDriver.new.advance.storeCollector 1 c)
      r.name 1 c' ctx = (RoundDriver.new.advance.storeCollector 1 c, c', []) :=
    if_neg fun h => nomatch h.1
  rw [hdriver, onRoundShare_of_submitShare hadmitted (AList.lookup_insert _) hsubmit hquiet,
    show (RoundDriver.new.advance.storeCollector 1 c).storeCollector 1 c' =
      RoundDriver.new.advance.storeCollector 1 c' from rfl]
  by_cases hcomplete : c'.isComplete = true
  · have hall := hc'.wellFormed.isComplete_iff.mp hcomplete
    have hall' : ∀ u ∈ ch.participants, u ∈ c'.sharesReceived := fun u hu =>
      hall u (hc'.participants.mem_iff.mpr hu)
    refine ⟨c', .finished, [], [r.extractedMsg], ⟨hc', hmem, Or.inr ⟨rfl, rfl, List.nodup_nil,
      fun p => ?_, fun u hu _ => hall' u hu⟩⟩, ?_⟩
    · exact iff_of_false List.not_mem_nil fun h => hne h.1
    · rw [if_pos hcomplete, finishRound_eq uid (hc'.extractText hall') (Or.inl rfl)]
  · refine ⟨c', .collecting c', [], [], ⟨hc', hmem, Or.inl ⟨rfl, rfl, rfl, ?_⟩⟩, ?_⟩
    swap
    · rw [if_neg hcomplete, hdriver]
    by_contra hnone
    refine hcomplete (hc'.wellFormed.isComplete_iff.mpr fun u hu => ?_)
    by_contra hmissing
    refine hnone ⟨u, hc'.participants.mem_iff.mp hu, hmissing, ?_⟩
    rintro rfl
    exact hmissing ((hmem u).mpr (Or.inr hown))

/-- The initiator stores the share, and releases its own after the last one. -/
theorem onRoundShare_leader (hleader : uid = r.leader) (hpeer : peer ∈ ch.participants)
    (hne : peer ≠ uid) (hc : r.CollectorOk c) (hnot : peer ∉ c.sharesReceived)
    (hown : uid ∉ c.sharesReceived) (hmyUid : ctx.myUid = uid) {signature : Bytes}
    (hadmitted : RoundDriver.shareAdmitted prim ctx r.name 1 peer (r.share peer) signature = true) :
    ∃ c' phase out texts, Collected r uid peer c c' phase out texts ∧
      RoundDriver.onRoundShare prim env (r.driver uid (.collecting c)) r.name 1 peer
        (r.share peer) signature ctx = (r.driver uid phase, ⟨texts, out⟩) := by
  obtain ⟨c', hsubmit, hc', hmem⟩ := hc.submitShare hpeer hnot
  have huid : uid ∈ ch.participants := hleader ▸ r.leader_mem
  have hown' : uid ∉ c'.sharesReceived := by
    rw [hmem, not_or]
    exact ⟨hne.symm, hown⟩
  have hdriver (c : RoundCollector) : r.driver uid (.collecting c) =
      RoundDriver.new.advance.beginRound 1 c (asBytes r.text) (r.share uid) (r.signature uid) :=
    if_pos hleader
  have hlookup : (r.driver uid (.collecting c)).collectors.lookup 1 = some c := by
    rw [hdriver]
    exact AList.lookup_insert _
  by_cases hmissing : c'.missingParticipants = [uid]
  -- everybody else has answered: our own share goes out, and completes the round
  · obtain ⟨-, -, hall⟩ := hc'.wellFormed.missingParticipants_eq_singleton.mp hmissing
    have hall' : ∀ u ∈ ch.participants, u ≠ uid → u ∈ c'.sharesReceived := fun u hu hne =>
      hall u (hc'.participants.mem_iff.mpr hu) hne
    obtain ⟨c₂, hsubmit₂, hc₂, hmem₂⟩ := hc'.submitShare huid hown'
    have hall₂ : ∀ u ∈ ch.participants, u ∈ c₂.sharesReceived := by
      intro u hu
      rw [hmem₂]
      exact or_iff_not_imp_left.mpr fun hne => hall' u hu hne
    have hcomplete : c₂.isComplete = true := hc₂.wellFormed.isComplete_iff.mpr fun u hu =>
      hall₂ u (hc₂.participants.mem_iff.mp hu)
    have hrelease : RoundDriver.broadcastOwnShare env (r.driver uid (.collecting c)) r.name 1 c'
        ctx = ({ r.driver uid (.collecting c) with myShareBroadcast := true }, c₂,
          RoundDriver.toOthers uid (env.uidOrder.visit c₂.participants) (r.shareMsg uid)) := by
      rw [RoundDriver.broadcastOwnShare, hmyUid, hdriver, if_pos ⟨rfl, rfl, hmissing⟩]
      show (_, c'.trySubmit uid (r.share uid), RoundDriver.toOthers uid
        (env.uidOrder.visit (c'.trySubmit uid (r.share uid)).participants) _) = _
      rw [RoundCollector.trySubmit, hsubmit₂]
      rfl
    rw [onRoundShare_of_submitShare hadmitted hlookup hsubmit hrelease, if_pos hcomplete,
      finishRound_eq uid (hc₂.extractText hall₂) (Or.inr ⟨r.share uid, r.signature uid, by
        rw [hdriver]
        rfl⟩)]
    refine ⟨c', .finished, _, _, ⟨hc', hmem, Or.inr ⟨rfl, rfl, ?_, fun p => ?_, hall'⟩⟩, rfl⟩
    · exact nodup_toOthers ((env.uidOrder.perm _).nodup_iff.mpr hc₂.wellFormed.nodup) _ _
    · rw [RoundDriver.mem_toOthers, env.uidOrder.mem_visit, hc₂.participants.mem_iff]
      exact (and_iff_right hleader).symm
  · have hquiet : RoundDriver.broadcastOwnShare env (r.driver uid (.collecting c)) r.name 1 c' ctx =
        (r.driver uid (.collecting c), c', []) := by
      rw [RoundDriver.broadcastOwnShare, hmyUid]
      exact if_neg fun h => hmissing h.2.2
    -- our own share is missing, so the round is not complete
    have hincomplete : ¬ c'.isComplete = true := fun hcomplete =>
      hown' (hc'.wellFormed.isComplete_iff.mp hcomplete uid (hc'.participants.mem_iff.mpr huid))
    rw [onRoundShare_of_submitShare hadmitted hlookup hsubmit hquiet, if_neg hincomplete]
    refine ⟨c', .collecting c', [], [], ⟨hc', hmem, Or.inl ⟨rfl, rfl, rfl, ?_⟩⟩, ?_⟩
    · by_contra hnone
      refine hmissing (hc'.wellFormed.missingParticipants_eq_singleton.mpr
        ⟨hc'.participants.mem_iff.mpr huid, hown', fun u hu hne => ?_⟩)
      by_contra hnot
      exact hnone ⟨u, hc'.participants.mem_iff.mp hu, hnot, hne⟩
    · rw [hdriver, hdriver]
      rfl

/-- A member that collects shares is handed one that it does not have. -/
theorem handle_share
    (hverify : ∀ key msg, prim.verify (prim.verifyingKey key) msg (prim.sign key msg) = true)
    (huid : uid ∈ ch.participants) (hpeer : peer ∈ ch.participants) (hne : peer ≠ uid)
    (hc : r.CollectorOk c) (hnot : peer ∉ c.sharesReceived)
    (hown : uid ∈ c.sharesReceived ↔ uid ≠ r.leader)
    (hctx : Exchange.HonestContext prim ch r.keys uid ctx)
    (hexpired : (r.driver uid (.collecting c)).expiredRounds env = []) :
    ∃ c' phase out texts, Collected r uid peer c c' phase out texts ∧
      RoundDriver.handle prim env (r.driver uid (.collecting c)) (r.shareMsg peer) ctx =
        (r.driver uid phase, ⟨texts, out⟩) := by
  have hadmitted := shareAdmitted_shareMsg hverify hctx peer
  obtain ⟨c', phase, out, texts, hcollected, hshare⟩ : ∃ c' phase out texts,
      Collected r uid peer c c' phase out texts ∧ RoundDriver.onRoundShare prim env
        (r.driver uid (.collecting c)) r.name 1 peer (r.share peer) (r.signature peer) ctx =
          (r.driver uid phase, ⟨texts, out⟩) := by
    by_cases hleader : uid = r.leader
    · exact onRoundShare_leader hleader hpeer hne hc hnot (fun h => hown.mp h hleader) hctx.myUid
        hadmitted
    · exact onRoundShare_member hleader huid hpeer hc hnot (hown.mpr hleader) hadmitted
  refine ⟨c', phase, out, texts, hcollected, ?_⟩
  rw [shareMsg, RoundDriver.handle, dropExpired_of_nil hexpired]
  dsimp only
  rw [hshare]
  exact flush_eq (pendingOutgoing_driver _ _) _

end Steps

/-! ## The invariant of the exchange -/

/-- What a driver in the phase has extracted. -/
def texts (r : SoloRound prim ch) : Phase → List ExtractedMessage
  | .finished => [r.extractedMsg]
  | _ => []

/-- A member has sent its share: the initiator at the end of the round, the others as soon as they
have seen the announcement. -/
def Sent (r : SoloRound prim ch) (phase : String → Phase) (uid : String) : Prop :=
  (uid = r.leader → phase uid = .finished) ∧ phase uid ≠ .waiting

/-- What is in flight: the announcement to a member that waits for it, and the share of a member
that has sent it to a member that does not have it. -/
def Due (r : SoloRound prim ch) (phase : String → Phase) (p : String × PeerMessage) : Prop :=
  p.1 ∈ ch.participants ∧
    ((p.1 ≠ r.leader ∧ phase p.1 = .waiting ∧ p.2 = r.startMsg) ∨
      ∃ u ∈ ch.participants, u ≠ p.1 ∧ r.Sent phase u ∧ ¬ (phase p.1).Has u ∧ p.2 = r.shareMsg u)

/-- A member collects shares. Some share of another member is missing, and the initiator holds its
own one back. -/
structure CollectingOk (r : SoloRound prim ch) (uid : String) (c : RoundCollector) : Prop extends
    r.CollectorOk c where
  own : uid ∈ c.sharesReceived ↔ uid ≠ r.leader
  missing : ∃ u ∈ ch.participants, u ∉ c.sharesReceived ∧ u ≠ uid

/-- The exchange when the members are in the given phases. -/
structure Inv (r : SoloRound prim ch) (phase : String → Phase) (s : Exchange) : Prop where
  driver : ∀ u ∈ ch.participants, s.drivers u = r.driver u (phase u)
  extracted : ∀ u ∈ ch.participants, s.extracted u = r.texts (phase u)
  collecting : ∀ u ∈ ch.participants, ∀ c, phase u = .collecting c → r.CollectingOk u c
  leader : phase r.leader ≠ .waiting
  /-- Nobody has a share that was not sent. -/
  sent : ∀ u ∈ ch.participants, ∀ v ∈ ch.participants, (phase u).Has v → r.Sent phase v
  nodup : s.inFlight.Nodup
  due : ∀ p, p ∈ s.inFlight ↔ r.Due phase p

variable {phase : String → Phase} {s : Exchange}

/-- When nothing is in flight, everybody has finished. -/
theorem Inv.finished (h : r.Inv phase s) (hfinal : s.inFlight = []) :
    ∀ u ∈ ch.participants, phase u = .finished := by
  have hnothing (p : String × PeerMessage) : ¬ r.Due phase p := by
    rw [← h.due, hfinal]
    exact List.not_mem_nil
  have hnotwaiting : ∀ u ∈ ch.participants, phase u ≠ .waiting := by
    intro u hu hwaiting
    refine hnothing (u, r.startMsg) ⟨hu, Or.inl ⟨?_, hwaiting, rfl⟩⟩
    rintro rfl
    exact h.leader hwaiting
  -- a member that still collects misses a share that has been sent
  have hdone : ∀ u ∈ ch.participants,
      (∀ v ∈ ch.participants, v ≠ u → r.Sent phase v) → phase u = .finished := by
    intro u hu hsent
    cases hphase : phase u with
    | waiting => exact absurd hphase (hnotwaiting u hu)
    | collecting c =>
      obtain ⟨v, hv, hmissing, hne⟩ := (h.collecting u hu c hphase).missing
      refine absurd ⟨hu, Or.inr ⟨v, hv, hne, hsent v hv hne, ?_, rfl⟩⟩ (hnothing (u, r.shareMsg v))
      rw [hphase]
      exact hmissing
    | finished => rfl
  -- the initiator finishes on the shares of the others, and the others on its share
  have hleader : phase r.leader = .finished := hdone r.leader r.leader_mem fun v hv hne =>
    ⟨fun heq => absurd heq hne, hnotwaiting v hv⟩
  exact fun u hu => hdone u hu fun v hv _ => ⟨fun heq => heq ▸ hleader, hnotwaiting v hv⟩

/-- A step of `uid` on the message `msg`: its new phase, and what it sends and extracts. -/
structure Moved (r : SoloRound prim ch) (phase : String → Phase) (uid : String) (msg : PeerMessage)
    (next : Phase) (out : Outgoing) (texts : List ExtractedMessage) : Prop where
  next_ne : next ≠ .waiting
  start : phase uid = .waiting → msg = r.startMsg
  has : ∀ u ∈ ch.participants, u ≠ uid →
    (next.Has u ↔ (phase uid).Has u ∨ msg = r.shareMsg u)
  has_self : next.Has uid → r.Sent (Function.update phase uid next) uid
  sent : r.Sent phase uid → r.Sent (Function.update phase uid next) uid
  collecting : ∀ c, next = .collecting c → r.CollectingOk uid c
  texts_eq : r.texts (phase uid) ++ texts = r.texts next
  nodup : out.Nodup
  mem_out : ∀ p, p ∈ out ↔ (r.Sent (Function.update phase uid next) uid ∧ ¬ r.Sent phase uid) ∧
    p.1 ∈ ch.participants ∧ p.1 ≠ uid ∧ p.2 = r.shareMsg uid

theorem shareMsg_injective : Function.Injective r.shareMsg := by
  intro u v heq
  simp only [shareMsg, PeerMessage.dcRoundShare.injEq] at heq
  exact heq.2.2.1

theorem sent_update_of_ne {uid u : String} (hne : u ≠ uid) (next : Phase) :
    r.Sent (Function.update phase uid next) u ↔ r.Sent phase u := by
  rw [Sent, Sent, Function.update_of_ne hne]

/-- Among those that still collect, all but the initiator have sent their share. -/
theorem sent_iff_of_collecting {uid : String} {c : RoundCollector}
    (hphase : phase uid = .collecting c) : r.Sent phase uid ↔ uid ≠ r.leader := by
  rw [Sent, hphase]
  constructor
  · intro h heq
    cases h.1 heq
  · intro hne
    refine ⟨fun heq => absurd heq hne, fun h => ?_⟩
    cases h

theorem sent_of_finished {uid : String} (hphase : phase uid = .finished) : r.Sent phase uid := by
  rw [Sent, hphase]
  refine ⟨fun _ => rfl, fun h => ?_⟩
  cases h

/-- A share that is due has been sent. -/
theorem Due.sent {p : String × PeerMessage} (h : r.Due phase p) {uid : String}
    (hmsg : p.2 = r.shareMsg uid) : r.Sent phase uid := by
  obtain ⟨-, ⟨-, -, hstart⟩ | ⟨u, -, -, husent, -, hshare⟩⟩ := h
  · rw [hmsg] at hstart
    cases hstart
  · rw [hmsg] at hshare
    rwa [shareMsg_injective hshare]

/-- What is in flight after a step. -/
theorem Moved.due {uid : String} {msg : PeerMessage} {next : Phase} {out : Outgoing}
    {texts : List ExtractedMessage} (hmoved : Moved r phase uid msg next out texts)
    (huid : uid ∈ ch.participants)
    (hsent : ∀ u ∈ ch.participants, ∀ v ∈ ch.participants, (phase u).Has v → r.Sent phase v)
    (p : String × PeerMessage) :
    (p ≠ (uid, msg) ∧ r.Due phase p) ∨ p ∈ out ↔ r.Due (Function.update phase uid next) p := by
  obtain ⟨target, m⟩ := p
  rw [hmoved.mem_out]
  constructor
  · rintro (⟨hne, htarget, ⟨hleader, hwaiting, rfl⟩ | ⟨u, hu, hsender, husent, hnot, rfl⟩⟩ |
      ⟨⟨hnew, hold⟩, htarget, hother, rfl⟩)
    -- the announcement is still due to everybody else
    · have hother : target ≠ uid := by
        rintro rfl
        exact hne (by rw [hmoved.start hwaiting])
      refine ⟨htarget, Or.inl ⟨hleader, ?_, rfl⟩⟩
      rw [Function.update_of_ne hother]
      exact hwaiting
    · refine ⟨htarget, Or.inr ⟨u, hu, hsender, ?_, ?_, rfl⟩⟩
      · by_cases heq : u = uid
        · subst heq
          exact hmoved.sent husent
        · exact (sent_update_of_ne heq next).mpr husent
      · by_cases heq : target = uid
        · subst heq
          rw [Function.update_self, hmoved.has u hu hsender]
          exact fun h => h.elim hnot fun hmsg => hne (by rw [hmsg])
        · rwa [Function.update_of_ne heq]
    -- the new share is due to everybody else
    · refine ⟨htarget, Or.inr ⟨uid, huid, Ne.symm hother, hnew, ?_, rfl⟩⟩
      rw [Function.update_of_ne hother]
      exact fun hhas => hold (hsent target htarget uid huid hhas)
  · rintro ⟨htarget, ⟨hleader, hwaiting, rfl⟩ | ⟨u, hu, hsender, husent, hnot, rfl⟩⟩
    · have hother : target ≠ uid := by
        rintro rfl
        rw [Function.update_self] at hwaiting
        exact hmoved.next_ne hwaiting
      rw [Function.update_of_ne hother] at hwaiting
      exact Or.inl ⟨fun heq => hother (congrArg Prod.fst heq), htarget,
        Or.inl ⟨hleader, hwaiting, rfl⟩⟩
    · by_cases hfresh : u = uid ∧ ¬ r.Sent phase uid
      · obtain ⟨rfl, hold⟩ := hfresh
        exact Or.inr ⟨⟨husent, hold⟩, htarget, Ne.symm hsender, rfl⟩
      · have husent' : r.Sent phase u := by
          by_cases heq : u = uid
          · subst heq
            exact not_not.mp fun hold => hfresh ⟨rfl, hold⟩
          · exact (sent_update_of_ne heq next).mp husent
        by_cases heq : target = uid
        · subst heq
          rw [Function.update_self, hmoved.has u hu hsender, not_or] at hnot
          exact Or.inl ⟨fun hp => hnot.2 (Prod.mk.inj hp).2.symm, htarget,
            Or.inr ⟨u, hu, hsender, husent', hnot.1, rfl⟩⟩
        · rw [Function.update_of_ne heq] at hnot
          exact Or.inl ⟨fun hp => heq (Prod.mk.inj hp).1, htarget,
            Or.inr ⟨u, hu, hsender, husent', hnot, rfl⟩⟩

/-- After a step on a message that was due, nobody has a share that was not sent. -/
theorem Moved.forall_sent {uid : String} {msg : PeerMessage} {next : Phase} {out : Outgoing}
    {texts : List ExtractedMessage} (hmoved : Moved r phase uid msg next out texts)
    (hsent : ∀ u ∈ ch.participants, ∀ v ∈ ch.participants, (phase u).Has v → r.Sent phase v)
    (hmsg : ∀ v, msg = r.shareMsg v → r.Sent phase v) :
    ∀ u ∈ ch.participants, ∀ v ∈ ch.participants,
      (Function.update phase uid next u).Has v → r.Sent (Function.update phase uid next) v := by
  intro u hu v hv hhas
  by_cases hv' : v = uid
  · subst hv'
    by_cases hu' : u = v
    · subst hu'
      rw [Function.update_self] at hhas
      exact hmoved.has_self hhas
    · rw [Function.update_of_ne hu'] at hhas
      exact hmoved.sent (hsent u hu v hv hhas)
  · rw [sent_update_of_ne hv']
    by_cases hu' : u = uid
    · subst hu'
      rw [Function.update_self, hmoved.has v hv hv'] at hhas
      exact hhas.elim (hsent u hu v hv) (hmsg v)
    · rw [Function.update_of_ne hu'] at hhas
      exact hsent u hu v hv hhas

/-- A delivery keeps the invariant. -/
theorem Inv.deliver (h : r.Inv phase s) {p : String × PeerMessage} (hp : p ∈ s.inFlight)
    {env : CallEnv} {ctx : RoundContext} {next : Phase} {out : Outgoing}
    {texts : List ExtractedMessage} (hmoved : Moved r phase p.1 p.2 next out texts)
    (hhandle : RoundDriver.handle prim env (r.driver p.1 (phase p.1)) p.2 ctx =
      (r.driver p.1 next, ⟨texts, out⟩)) :
    r.Inv (Function.update phase p.1 next) (s.deliver prim p env ctx) := by
  have huid : p.1 ∈ ch.participants := ((h.due p).mp hp).1
  have hcall : (s.drivers p.1).call prim ⟨env, ctx, .handle p.2⟩ =
      (r.driver p.1 next, ⟨texts, out⟩) := by
    rw [h.driver p.1 huid]
    exact hhandle
  have hinFlight : (s.deliver prim p env ctx).inFlight = s.inFlight.erase p ++ out := by
    show s.inFlight.erase p ++ ((s.drivers p.1).call prim ⟨env, ctx, .handle p.2⟩).2.outgoing = _
    rw [hcall]
  have hdue (p' : String × PeerMessage) : p' ∈ (s.deliver prim p env ctx).inFlight ↔
      r.Due (Function.update phase p.1 next) p' := by
    rw [hinFlight, List.mem_append, h.nodup.mem_erase_iff, h.due]
    exact hmoved.due huid h.sent p'
  refine ⟨fun u hu => ?_, fun u hu => ?_, fun u hu c hphase => ?_, ?_,
    hmoved.forall_sent h.sent fun v hmsg => ((h.due p).mp hp).sent hmsg, ?_, hdue⟩
  · show Function.update s.drivers p.1 _ u = _
    by_cases hu' : u = p.1
    · rw [hu', Function.update_self, Function.update_self]
      exact congrArg Prod.fst hcall
    · rw [Function.update_of_ne hu', Function.update_of_ne hu']
      exact h.driver u hu
  · show Function.update s.extracted p.1 _ u = _
    by_cases hu' : u = p.1
    · rw [hu', Function.update_self, Function.update_self, ← hmoved.texts_eq,
        ← h.extracted p.1 huid]
      exact congrArg (s.extracted p.1 ++ ·.2.extracted) hcall
    · rw [Function.update_of_ne hu', Function.update_of_ne hu']
      exact h.extracted u hu
  · by_cases hu' : u = p.1
    · subst hu'
      rw [Function.update_self] at hphase
      exact hmoved.collecting c hphase
    · rw [Function.update_of_ne hu'] at hphase
      exact h.collecting u hu c hphase
  · by_cases hleader : r.leader = p.1
    · rw [hleader, Function.update_self]
      exact hmoved.next_ne
    · rw [Function.update_of_ne hleader]
      exact h.leader
  -- a share that goes out was not in flight before
  · rw [hinFlight]
    refine (h.nodup.erase p).append hmoved.nodup fun p' hold hnew => ?_
    obtain ⟨⟨-, hunsent⟩, -, -, hshare⟩ := (hmoved.mem_out p').mp hnew
    exact hunsent (((h.due p').mp (List.mem_of_mem_erase hold)).sent hshare)

/-- The step of a member on the announcement. -/
theorem moved_start {uid : String} {c : RoundCollector} (hne : uid ≠ r.leader)
    (hphase : phase uid = .waiting) (hc : r.CollectorOk c)
    (hmem : ∀ u, u ∈ c.sharesReceived ↔ u = uid) :
    Moved r phase uid r.startMsg (.collecting c)
      (RoundDriver.toOthers uid r.participants (r.shareMsg uid)) [] := by
  have hsent : r.Sent (Function.update phase uid (.collecting c)) uid :=
    (sent_iff_of_collecting (Function.update_self _ _ _)).mpr hne
  have hunsent : ¬ r.Sent phase uid := fun h => h.2 hphase
  refine ⟨fun h => (nomatch h), fun _ => rfl, fun u hu hother => ?_, fun _ => hsent, fun _ => hsent,
    fun c' hnext => ?_, by rw [hphase]; rfl, nodup_toOthers (r.perm.nodup_iff.mpr ch.nodup) _ _,
    fun p => ?_⟩
  · rw [hphase]
    refine iff_of_false (fun h => hother ((hmem u).mp h)) fun h => ?_
    rcases h with h | h
    · exact h
    · cases h
  · cases hnext
    refine ⟨hc, iff_of_true ((hmem uid).mpr rfl) hne, r.leader, r.leader_mem, ?_, Ne.symm hne⟩
    exact fun h => hne ((hmem r.leader).mp h).symm
  · rw [RoundDriver.mem_toOthers, r.perm.mem_iff]
    exact (and_iff_right ⟨hsent, hunsent⟩).symm

/-- The step of a member on a share. -/
theorem moved_share {uid peer : String} {c c' : RoundCollector} {next : Phase} {out : Outgoing}
    {texts : List ExtractedMessage} (hne : peer ≠ uid) (hphase : phase uid = .collecting c)
    (hc : r.CollectingOk uid c) (hcollected : Collected r uid peer c c' next out texts) :
    Moved r phase uid (r.shareMsg peer) next out texts := by
  have hsent : r.Sent phase uid ↔ uid ≠ r.leader := sent_iff_of_collecting hphase
  have hmsg (u : String) : r.shareMsg peer = r.shareMsg u ↔ u = peer :=
    ⟨fun h => (shareMsg_injective h).symm, fun h => by rw [h]⟩
  have hstart : phase uid = .waiting → r.shareMsg peer = r.startMsg := by
    rw [hphase]
    exact fun h => nomatch h
  rcases hcollected.outcome with ⟨rfl, rfl, rfl, hmissing⟩ | ⟨rfl, rfl, hnodup, hout, hall⟩
  -- the round goes on: the share of the peer has been added
  · have hsent' : r.Sent (Function.update phase uid (.collecting c')) uid ↔ uid ≠ r.leader :=
      sent_iff_of_collecting (Function.update_self _ _ _)
    have hown : uid ∈ c'.sharesReceived ↔ uid ≠ r.leader := by
      rw [hcollected.mem_iff, hc.own]
      exact or_iff_right hne.symm
    refine ⟨fun h => (nomatch h), hstart, fun u hu hother => ?_, fun h => hsent'.mpr (hown.mp h),
      fun h => hsent'.mpr (hsent.mp h), fun c₁ hnext => ?_, by rw [hphase]; rfl, List.nodup_nil,
      fun p => iff_of_false List.not_mem_nil fun h => h.1.2 (hsent.mpr (hsent'.mp h.1.1))⟩
    · rw [hphase, hmsg]
      exact (hcollected.mem_iff u).trans or_comm
    · cases hnext
      exact ⟨hcollected.collector, hown, hmissing⟩
  -- the round is complete: the member extracts, and the leader sends its own share
  · have hsent' : r.Sent (Function.update phase uid .finished) uid :=
      sent_of_finished (Function.update_self _ _ _)
    refine ⟨fun h => (nomatch h), hstart, fun u hu hother => ?_, fun _ => hsent', fun _ => hsent',
      fun c₁ hnext => (nomatch hnext), by rw [hphase]; rfl, hnodup, fun p => ?_⟩
    · rw [hphase, hmsg]
      exact iff_of_true trivial (((hcollected.mem_iff u).mp (hall u hu hother)).symm)
    · rw [hout, hsent, not_not]
      exact and_congr_left' (and_iff_right hsent').symm

/-- The call of the initiator: it collects shares, and announces the round. -/
theorem call_initiate {env : CallEnv} {ctx : RoundContext}
    (hctx : Exchange.HonestContext prim ch r.keys r.leader ctx) :
    RoundDriver.new.call prim ⟨env, ctx, .initiate r.name r.text r.participants⟩ =
      (r.driver r.leader (.collecting (.new r.name 1 r.participants channelRoundDeadlineSecs
          channelPayloadLen env.now)),
        ⟨[], RoundDriver.toOthers r.leader r.participants r.startMsg⟩) := by
  obtain ⟨d, share, hbegun, hinit⟩ := hctx.initiate prim env RoundDriver.new r.name r.fits r.perm
  have hshare : share = r.share r.leader := by
    have hcompute := r.share_eq r.leader r.leader_mem
    rw [if_pos rfl, ← hctx.edgeKeys] at hcompute
    have hbegun' := hbegun.share_eq
    rw [hctx.myUid] at hbegun'
    exact Option.some.inj (hbegun'.symm.trans hcompute)
  rw [Mesh.initiate_call rfl, hinit, hbegun.state_eq, driver, if_pos rfl, hshare,
    RoundDriver.announcement, hctx.myUid, hctx.signingKey]
  rfl

/-- The first state: the announcement is in flight. -/
theorem inv_initiate {env : CallEnv} {ctx : RoundContext}
    (hctx : Exchange.HonestContext prim ch r.keys r.leader ctx) :
    ∃ phase, r.Inv phase (Exchange.init.act prim r.leader
      ⟨env, ctx, .initiate r.name r.text r.participants⟩) := by
  let c := RoundCollector.new r.name 1 r.participants channelRoundDeadlineSecs channelPayloadLen
    env.now
  let phase (u : String) : Phase := if u = r.leader then .collecting c else .waiting
  have hleader : phase r.leader = .collecting c := if_pos rfl
  have hother {u : String} (hne : u ≠ r.leader) : phase u = .waiting := if_neg hne
  have hcall : RoundDriver.new.call prim ⟨env, ctx, .initiate r.name r.text r.participants⟩ =
      (r.driver r.leader (.collecting c),
        ⟨[], RoundDriver.toOthers r.leader r.participants r.startMsg⟩) :=
    r.call_initiate hctx
  -- nobody has a share, and nobody has sent one
  have hempty (u v : String) : ¬ (phase u).Has v := by
    by_cases hu : u = r.leader
    · rw [hu, hleader]
      exact AList.notMem_empty v
    · rw [hother hu]
      exact id
  have hunsent (u : String) : ¬ r.Sent phase u := by
    rintro ⟨hfinished, hwaiting⟩
    by_cases hu : u = r.leader
    · have hphase := hfinished hu
      rw [hu, hleader] at hphase
      cases hphase
    · exact hwaiting (hother hu)
  have hsent : (Exchange.init.act prim r.leader
      ⟨env, ctx, .initiate r.name r.text r.participants⟩).inFlight =
        RoundDriver.toOthers r.leader r.participants r.startMsg := by
    show [] ++ (RoundDriver.new.call prim _).2.outgoing = _
    rw [hcall]
    rfl
  refine ⟨phase, fun u hu => ?_, fun u hu => ?_, fun u hu c' hphase => ?_, ?_,
    fun u _ v _ hhas => absurd hhas (hempty u v), ?_, fun p => ?_⟩
  · show Function.update (fun _ => RoundDriver.new) r.leader (RoundDriver.new.call prim _).1 u = _
    by_cases hne : u = r.leader
    · rw [hne, Function.update_self, hcall, hleader]
    · rw [Function.update_of_ne hne, hother hne]
      rfl
  · show Function.update (fun _ => []) r.leader
      ([] ++ (RoundDriver.new.call prim _).2.extracted) u = _
    by_cases hne : u = r.leader
    · rw [hne, Function.update_self, hcall, hleader]
      rfl
    · rw [Function.update_of_ne hne, hother hne]
      rfl
  · by_cases hne : u = r.leader
    · subst hne
      rw [hleader] at hphase
      obtain rfl := Phase.collecting.inj hphase
      obtain ⟨v, hv, hvne⟩ := ch.exists_ne r.leader
      exact ⟨r.collectorOk_new env.now, iff_of_false (AList.notMem_empty _) (not_not.mpr rfl),
        v, hv, AList.notMem_empty v, hvne⟩
    · rw [hother hne] at hphase
      cases hphase
  · rw [hleader]
    intro hwaiting
    cases hwaiting
  · rw [hsent]
    exact nodup_toOthers (r.perm.nodup_iff.mpr ch.nodup) _ _
  · rw [hsent, RoundDriver.mem_toOthers, r.perm.mem_iff, Due]
    refine and_congr_right fun _ => ⟨fun h => Or.inl ⟨h.1, hother h.1, h.2⟩, ?_⟩
    rintro (⟨hne, -, hmsg⟩ | ⟨u, -, -, husent, -⟩)
    · exact ⟨hne, hmsg⟩
    · exact absurd husent (hunsent u)

end SoloRound

namespace Exchange

open SoloRound

variable {prim : Primitives} {ch : MeshChannel} {keys : String → Bytes32}
  {name leader text : String} {s : Exchange}

/-- All members can compute their shares of the round. -/
theorem exists_shares (prim : Primitives) (leader : String) {participants : List String}
    (hperm : participants.Perm ch.participants)
    (hfits : (asBytes text).length + 36 ≤ channelPayloadLen) :
    ∃ share : String → Bytes, ∀ u ∈ ch.participants, computeXorShareSecure prim 1 u participants
      (if u = leader then some (asBytes text) else none) channelPayloadLen (ch.edgeKeys u) =
        some (share u) := by
  have hshare (u : String) : ∃ share, u ∈ ch.participants → computeXorShareSecure prim 1 u
      participants (if u = leader then some (asBytes text) else none) channelPayloadLen
        (ch.edgeKeys u) = some share := by
    by_cases hu : u ∈ ch.participants
    · obtain ⟨share, hshare⟩ := ch.exists_share prim 1 hu hperm
        (if u = leader then some (asBytes text) else none) fun msg hmsg => by
          split_ifs at hmsg
          obtain rfl := Option.some.inj hmsg
          omega
      exact ⟨share, fun _ => hshare⟩
    · exact ⟨[], fun h => absurd h hu⟩
  choose share hshare using hshare
  exact ⟨share, hshare⟩

/-- A delivery in order moves one member on. -/
theorem exists_inv_deliver
    (hverify : ∀ key msg, prim.verify (prim.verifyingKey key) msg (prim.sign key msg) = true)
    {r : SoloRound prim ch} {phase : String → Phase} (hinv : r.Inv phase s)
    {p : String × PeerMessage} (hp : p ∈ s.inFlight) {env : CallEnv} {ctx : RoundContext}
    (hctx : HonestContext prim ch r.keys p.1 ctx)
    (hexpired : (s.drivers p.1).expiredRounds env = [])
    (hready : s.InOrder p) : ∃ phase', r.Inv phase' (s.deliver prim p env ctx) := by
  obtain ⟨uid, msg⟩ := p
  obtain ⟨huid, ⟨hne, hphase, rfl⟩ | ⟨peer, hpeer, hne, hsent, hnot, rfl⟩⟩ := (hinv.due _).mp hp
  · rw [hinv.driver uid huid, hphase] at hexpired
    obtain ⟨c, hhandle, hc, hmem⟩ := handle_start huid hne hctx hexpired
    rw [← hphase] at hhandle
    exact ⟨_, hinv.deliver hp (moved_start hne hphase hc hmem) hhandle⟩
  -- no announcement to the member is in flight, so it has a collector
  · cases hphase : phase uid with
    | waiting =>
      have hleader : uid ≠ r.leader := by
        rintro rfl
        exact hinv.leader hphase
      have hstart : (uid, r.startMsg) ∈ s.inFlight :=
        (hinv.due _).mpr ⟨huid, Or.inl ⟨hleader, hphase, rfl⟩⟩
      exact absurd (hready rfl _ hstart rfl) (by rw [startMsg, PeerMessage.isStart]; decide)
    | collecting c =>
      rw [hphase] at hnot
      rw [hinv.driver uid huid, hphase] at hexpired
      have hc := hinv.collecting uid huid c hphase
      obtain ⟨c', next, out, texts, hcollected, hhandle⟩ :=
        handle_share hverify huid hpeer hne hc.toCollectorOk hnot hc.own hctx hexpired
      rw [← hphase] at hhandle
      exact ⟨_, hinv.deliver hp (moved_share hne hphase hc hcollected) hhandle⟩
    | finished =>
      rw [hphase] at hnot
      exact absurd trivial hnot

/-- In a run without overtaking, the members are in the phases of one round. -/
theorem Run.exists_inv
    (hverify : ∀ key msg, prim.verify (prim.verifyingKey key) msg (prim.sign key msg) = true)
    (hfits : (asBytes text).length + 36 ≤ channelPayloadLen)
    (hrun : Run prim ch keys name leader text InOrder s) :
    ∃ (r : SoloRound prim ch) (phase : String → Phase), r.Inv phase s ∧ r.keys = keys ∧
      r.extractedMsg = ⟨name, text, 1⟩ := by
  induction hrun with
  | @initiate env ctx participants hctx hperm =>
    obtain ⟨share, hshare⟩ := exists_shares prim leader hperm hfits
    let r : SoloRound prim ch :=
      ⟨name, leader, text, participants, keys, share, hctx.mem, hperm, hfits, hshare⟩
    have hfirst : ∃ phase, r.Inv phase (init.act prim leader
        ⟨env, ctx, .initiate name text participants⟩) := inv_initiate hctx
    obtain ⟨phase, hinv⟩ := hfirst
    exact ⟨r, phase, hinv, rfl, rfl⟩
  | @deliver s p env ctx _ hp hctx hexpired hready ih =>
    obtain ⟨r, phase, hinv, rfl, hextracted⟩ := ih
    obtain ⟨phase', hinv'⟩ := exists_inv_deliver hverify hinv hp hctx hexpired hready
    exact ⟨r, phase', hinv', rfl, hextracted⟩

/-- Deliver the messages at the given places of the network, one after the other, as long as that is
a run. -/
def deliverAll (prim : Primitives) (ch : MeshChannel) (env : CallEnv) (ctx : String → RoundContext)
    (Ready : Exchange → String × PeerMessage → Prop) [∀ s, DecidablePred (Ready s)] :
    Exchange → List ℕ → Option Exchange
  | s, [] => some s
  | s, i :: schedule =>
    match s.inFlight[i]? with
    | none => none
    | some p =>
      if p.1 ∈ ch.participants ∧ ((s.drivers p.1).expiredRounds env).isEmpty = true ∧ Ready s p then
        deliverAll prim ch env ctx Ready (s.deliver prim p env (ctx p.1)) schedule
      else none

theorem Run.deliverAll {env : CallEnv} {ctx : String → RoundContext}
    {Ready : Exchange → String × PeerMessage → Prop} [∀ s, DecidablePred (Ready s)]
    (hctx : ∀ uid ∈ ch.participants, HonestContext prim ch keys uid (ctx uid))
    (hrun : Run prim ch keys name leader text Ready s) {s' : Exchange} {schedule : List ℕ}
    (h : Exchange.deliverAll prim ch env ctx Ready s schedule = some s') :
    Run prim ch keys name leader text Ready s' := by
  induction schedule generalizing s with
  | nil =>
    obtain rfl := Option.some.inj h
    exact hrun
  | cons i schedule ih =>
    rw [Exchange.deliverAll] at h
    split at h
    · cases h
    next p hp =>
      split_ifs at h with hstep
      exact ih (.deliver hrun (List.mem_of_getElem? hp) (hctx p.1 hstep.1)
        (List.isEmpty_iff.mp hstep.2.1) hstep.2.2) h

/-- Delivery of a round. If one member initiates a text that fits, no round expires, every message
is delivered exactly once and no share overtakes an announcement, then in the end, when nothing is
in flight, every member has extracted the text exactly once. -/
theorem delivered_of_inOrder (prim : Primitives)
    (hverify : ∀ key msg, prim.verify (prim.verifyingKey key) msg (prim.sign key msg) = true)
    (ch : MeshChannel) (keys : String → Bytes32) (name leader text : String)
    (hfits : (asBytes text).length + 36 ≤ channelPayloadLen) (s : Exchange)
    (hrun : Run prim ch keys name leader text InOrder s) (hfinal : s.inFlight = []) :
    ∀ uid ∈ ch.participants, s.extracted uid = [⟨name, text, 1⟩] := by
  intro uid huid
  obtain ⟨r, phase, hinv, -, hextracted⟩ := hrun.exists_inv hverify hfits
  rw [hinv.extracted uid huid, hinv.finished hfinal uid huid, ← hextracted]
  rfl

/-- The context of a member that has no keys on record. -/
def plainContext (ch : MeshChannel) (uid : String) : RoundContext :=
  ⟨uid, .replicate 32 1, ch.edgeKeys uid, ∅⟩

theorem honestContext_plain (prim : Primitives) (ch : MeshChannel) : ∀ uid ∈ ch.participants,
    HonestContext prim ch (fun _ => .replicate 32 1) uid (plainContext ch uid) :=
  fun _ huid => ⟨⟨huid, rfl, rfl⟩, rfl, fun _ _ _ hkey => nomatch hkey⟩

/-- A round in which `a` sends "hi", with the messages delivered from the given places. -/
def plainRound (ch : MeshChannel) (Ready : Exchange → String × PeerMessage → Prop)
    [∀ s, DecidablePred (Ready s)] (schedule : List ℕ) : Option Exchange :=
  deliverAll .const ch ⟨.stored, .stored, 0, fun _ => 0⟩ (plainContext ch) Ready
    (init.act .const "a" ⟨⟨.stored, .stored, 0, fun _ => 0⟩, plainContext ch "a",
      .initiate "#g" "hi" ch.participants⟩) schedule

theorem run_plainRound {Ready : Exchange → String × PeerMessage → Prop}
    [∀ s, DecidablePred (Ready s)] (ha : "a" ∈ ch.participants) {schedule : List ℕ}
    (h : plainRound ch Ready schedule = some s) :
    Run .const ch (fun _ => .replicate 32 1) "#g" "a" "hi" Ready s :=
  .deliverAll (honestContext_plain .const ch)
    (.initiate (honestContext_plain .const ch "a" ha) (.refl _)) h

set_option maxRecDepth 100000 in
/-- Two members deliver their messages in the order in which they were sent. -/
theorem delivered_of_inOrder_pair :
    ∃ s, plainRound pairChannel InOrder [0, 0, 0] = some s ∧
      ∀ uid ∈ pairChannel.participants, s.extracted uid = [⟨"#g", "hi", 1⟩] := by
  have hrun : (plainRound pairChannel InOrder [0, 0, 0]).map (·.inFlight.isEmpty) = some true := by
    decide +kernel
  obtain ⟨s, hs, hfinal⟩ := Option.map_eq_some_iff.mp hrun
  exact ⟨s, hs, delivered_of_inOrder .const (fun _ _ => rfl) pairChannel
    (fun _ => .replicate 32 1) "#g" "a" "hi" (by decide) s (run_plainRound (by decide) hs)
    (List.isEmpty_iff.mp hfinal)⟩

set_option maxRecDepth 100000 in
/-- In a round of three, the share of `b` reaches `c` before the announcement does. Everything is
delivered in the end, but `c` has not extracted the text. -/
theorem not_delivered :
    ¬ ∀ (prim : Primitives),
      (∀ key msg, prim.verify (prim.verifyingKey key) msg (prim.sign key msg) = true) →
      ∀ (ch : MeshChannel) (keys : String → Bytes32) (name leader text : String) (s : Exchange),
        Run prim ch keys name leader text (fun _ _ => True) s → s.inFlight = [] →
          ∀ uid ∈ ch.participants, ((s.extracted uid).map (·.text)).count text = 1 := by
  intro hclaim
  have hrun : (plainRound Mesh.triangle (fun _ _ => True) [0, 2, 0, 0, 0, 0, 0, 0]).map
      (fun s => (s.inFlight.isEmpty, s.extracted "c")) = some (true, []) := by
    decide +kernel
  obtain ⟨s, hs, hfinal⟩ := Option.map_eq_some_iff.mp hrun
  obtain ⟨hempty, hextracted⟩ := Prod.mk.inj hfinal
  have hdelivered := hclaim .const (fun _ _ => rfl) Mesh.triangle (fun _ => .replicate 32 1) "#g"
    "a" "hi" s (run_plainRound (by decide) hs) (List.isEmpty_iff.mp hempty) "c" (by decide)
  rw [hextracted] at hdelivered
  exact absurd hdelivered (by decide)

end Exchange

end ChronoShift
