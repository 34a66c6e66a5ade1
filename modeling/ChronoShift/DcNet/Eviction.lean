import ChronoShift.DcNet.Group
import ChronoShift.ToMathlib.Runs

/-!
# Eviction from a group

Who is removed from a DC-Net group over a run of joins, leaves and rounds. A round works on a copy
of the members, and its reputations are written back by id, while members may join, leave and join
again.

* `DcGroup.mem_finishRoundWith`: where the records of the members come from after a round;
* `DcGroup.mem_peerIds_finishRoundWith`: who is still a member;
* `DcGroup.Records`: what is known of the records of one peer, in the group and in the copy;
* `DcGroup.dropout_eviction`: who drops out of three rounds in a row is evicted, and who answers in
  every round is not.
-/

namespace ChronoShift

/-- A call on a group. -/
inductive GroupCall where
  | join (peerId : Bytes32)
  | leave (peerId : Bytes32)
  | startRound (roundId now : ℕ)
  | finishRoundWith (responded : List Bytes32)
  deriving DecidableEq

namespace DcGroup

/-- The group after a call. -/
def call (g : DcGroup) : GroupCall → DcGroup
  | .join peerId => g.join peerId
  | .leave peerId => g.leave peerId
  | .startRound roundId now => (g.startRound roundId now).1
  | .finishRoundWith responded => (g.finishRoundWith responded).1

/-- The round that a call completes, with those who have responded. -/
def completes (g : DcGroup) : GroupCall → Option (DcRound × List Bytes32)
  | .finishRoundWith responded => g.currentRound.map fun round => (round, responded)
  | _ => none

/-- The rounds that are completed in a run. -/
def completed (g : DcGroup) : List GroupCall → List (DcRound × List Bytes32)
  | [] => []
  | c :: calls => (g.completes c).toList ++ (g.call c).completed calls

/-- The record of a participant after a round. -/
def marked (responded : List Bytes32) (p : Participant) : Participant :=
  if p.peerId ∈ responded then p.reward else p.penalize

variable {g : DcGroup} {peerId : Bytes32} {responded : List Bytes32} {round : DcRound}

@[simp]
theorem peerId_marked (p : Participant) : (marked responded p).peerId = p.peerId := by
  unfold marked
  split <;> rfl

/-! ## Finishing a round -/

/-- The member with the id absorbs the record, and the others stay as they are. -/
theorem mem_writeBack {ps : List Participant} {rp p : Participant}
    (hnodup : (ps.map Participant.peerId).Nodup) (hp : p ∈ writeBack ps rp) :
    (rp.peerId = p.peerId ∧ p.reputation = rp.reputation ∧
      p.consecutiveDrops = rp.consecutiveDrops) ∨ (rp.peerId ≠ p.peerId ∧ p ∈ ps) := by
  induction ps with
  | nil => cases hp
  | cons q ps ih =>
    rw [List.map_cons, List.nodup_cons] at hnodup
    rw [writeBack] at hp
    split at hp
    next hid =>
      rcases List.mem_cons.mp hp with rfl | hp
      · exact Or.inl ⟨hid.symm, rfl, rfl⟩
      -- the ids are distinct, so no other member has this one
      · have hne : rp.peerId ≠ p.peerId := fun heq =>
          hnodup.1 (hid.trans heq ▸ List.mem_map_of_mem hp)
        exact Or.inr ⟨hne, List.mem_cons_of_mem q hp⟩
    next hid =>
      rcases List.mem_cons.mp hp with rfl | hp
      · exact Or.inr ⟨Ne.symm hid, List.mem_cons_self⟩
      · exact (ih hnodup.2 hp).imp id fun h => ⟨h.1, List.mem_cons_of_mem q h.2⟩

/-- A member has the last record that was written back for it, or its own. -/
theorem mem_foldl_writeBack {rps ps : List Participant} {p : Participant}
    (hnodup : (ps.map Participant.peerId).Nodup) (hp : p ∈ rps.foldl writeBack ps) :
    (∃ rp ∈ rps, rp.peerId = p.peerId ∧ p.reputation = rp.reputation ∧
      p.consecutiveDrops = rp.consecutiveDrops) ∨
      ((∀ rp ∈ rps, rp.peerId ≠ p.peerId) ∧ p ∈ ps) := by
  induction rps generalizing ps with
  | nil => exact Or.inr ⟨fun rp hrp => absurd hrp List.not_mem_nil, hp⟩
  | cons rp rps ih =>
    have hnodup' : ((writeBack ps rp).map Participant.peerId).Nodup := by
      rwa [peerIds_writeBack]
    rcases ih hnodup' hp with ⟨rp', hrp', hrecord⟩ | ⟨hothers, hp⟩
    · exact Or.inl ⟨rp', List.mem_cons_of_mem rp hrp', hrecord⟩
    · rcases mem_writeBack hnodup hp with hrecord | ⟨hne, hp⟩
      · exact Or.inl ⟨rp, List.mem_cons_self, hrecord⟩
      · exact Or.inr ⟨List.forall_mem_cons.mpr ⟨hne, hothers⟩, hp⟩

theorem participants_foldl_leave (g : DcGroup) (ids : List Bytes32) :
    (ids.foldl leave g).participants = g.participants.filter (·.peerId ∉ ids) ∧
      (ids.foldl leave g).currentRound = g.currentRound := by
  induction ids generalizing g with
  | nil => exact ⟨by simp, rfl⟩
  | cons id ids ih =>
    obtain ⟨hparticipants, hround⟩ := ih (g.leave id)
    refine ⟨?_, hround⟩
    rw [List.foldl_cons, hparticipants, leave, List.filter_filter]
    refine List.filter_congr fun p _ => ?_
    simp only [List.mem_cons, not_or, Bool.decide_and, Bool.and_comm, ne_eq]

/-- Finishing a round, written out. -/
theorem finishRoundWith_eq (hround : g.currentRound = some round) (responded : List Bytes32) :
    let ended := round.participants.map (marked responded)
    (g.finishRoundWith responded).1.participants =
        ((ended.filter (!·.isMalicious)).foldl writeBack g.participants).filter
          (·.peerId ∉ (ended.filter (·.isMalicious)).map Participant.peerId) ∧
      (g.finishRoundWith responded).1.currentRound = none := by
  intro ended
  rw [finishRoundWith, hround]
  dsimp only [DcRound.markDropouts, DcRound.removeMalicious]
  exact participants_foldl_leave _ _

/-- After a round, the record of a member is the one of the copy, or it was not in the copy and has
kept its own. -/
theorem mem_finishRoundWith (hnodup : g.peerIds.Nodup) (hround : g.currentRound = some round)
    {p : Participant} (hp : p ∈ (g.finishRoundWith responded).1.participants) :
    (∃ q ∈ round.participants, q.peerId = p.peerId ∧ (marked responded q).isMalicious = false ∧
      p.reputation = (marked responded q).reputation ∧
      p.consecutiveDrops = (marked responded q).consecutiveDrops) ∨
      ((∀ q ∈ round.participants, q.peerId ≠ p.peerId) ∧ p ∈ g.participants) := by
  rw [(finishRoundWith_eq hround responded).1, List.mem_filter] at hp
  obtain ⟨hp, hstays⟩ := hp
  rcases mem_foldl_writeBack hnodup hp with ⟨rp, hrp, hid, hrecord⟩ | ⟨hothers, hp⟩
  · obtain ⟨hrp, hclean⟩ := List.mem_filter.mp hrp
    obtain ⟨q, hq, rfl⟩ := List.mem_map.mp hrp
    rw [peerId_marked] at hid
    exact Or.inl ⟨q, hq, hid, by simpa using hclean, hrecord⟩
  · refine Or.inr ⟨fun q hq hid => ?_, hp⟩
    -- in the copy it would be written back or removed
    have hmem : marked responded q ∈ round.participants.map (marked responded) :=
      List.mem_map_of_mem hq
    have hid' : (marked responded q).peerId = p.peerId := (peerId_marked q).trans hid
    cases hmalicious : (marked responded q).isMalicious with
    | false => exact hothers _ (List.mem_filter.mpr ⟨hmem, by simp [hmalicious]⟩) hid'
    | true =>
      refine of_decide_eq_true hstays (List.mem_map.mpr ⟨_, List.mem_filter.mpr ⟨hmem, ?_⟩, hid'⟩)
      exact hmalicious

/-- After a round, the members are those before it apart from the malicious ones. -/
theorem mem_peerIds_finishRoundWith (hround : g.currentRound = some round)
    (responded : List Bytes32) (id : Bytes32) :
    id ∈ (g.finishRoundWith responded).1.peerIds ↔ id ∈ g.peerIds ∧
      ∀ q ∈ round.participants, q.peerId = id → (marked responded q).isMalicious = false := by
  have hids := (foldl_writeBack
    ((round.participants.map (marked responded)).filter (!·.isMalicious)) g.participants).1
  rw [peerIds, (finishRoundWith_eq hround responded).1]
  have hfilter (ps : List Participant) (bad : List Bytes32) :
      (ps.filter (·.peerId ∉ bad)).map Participant.peerId =
        (ps.map Participant.peerId).filter (· ∉ bad) := by
    rw [List.filter_map]
    rfl
  rw [hfilter, hids, List.mem_filter, peerIds]
  refine and_congr_right fun _ => ?_
  simp only [List.mem_map, List.mem_filter, decide_eq_true_eq, not_exists, not_and]
  constructor
  · intro h q hq hid
    rw [← Bool.not_eq_true]
    exact fun hbad => h _ ⟨⟨q, hq, rfl⟩, hbad⟩ ((peerId_marked q).trans hid)
  · rintro h _ ⟨⟨q, hq, rfl⟩, hbad⟩ hid
    rw [h q hq ((peerId_marked q).symm.trans hid)] at hbad
    cases hbad

theorem nodup_peerIds_call (h : g.peerIds.Nodup) (c : GroupCall) : (g.call c).peerIds.Nodup := by
  cases c with
  | join id => exact nodup_peerIds_join h id
  | leave id => exact nodup_peerIds_leave h id
  | startRound roundId now =>
    have hsub : (g.startRound roundId now).1.peerIds.Sublist g.peerIds := by
      unfold startRound peerIds
      dsimp only
      split <;> exact List.filter_sublist.map _
    exact h.sublist hsub
  | finishRoundWith responded =>
    cases hround : g.currentRound with
    | none =>
      rw [call, finishRoundWith, hround]
      exact h
    | some round =>
      rw [call, peerIds, (finishRoundWith_eq hround responded).1]
      refine List.Nodup.sublist (List.filter_sublist.map _) ?_
      rw [(foldl_writeBack _ _).1]
      exact h

/-! ## The records of a peer -/

/-- What is known of the reputation and of the drops of a peer, in the group and in the copy that
the current round works on. -/
structure Records (g : DcGroup) (peerId : Bytes32) (P : ℚ → ℕ → Prop) : Prop where
  member : ∀ p ∈ g.participants, p.peerId = peerId → P p.reputation p.consecutiveDrops
  copy : ∀ round, g.currentRound = some round → ∀ p ∈ round.participants, p.peerId = peerId →
    P p.reputation p.consecutiveDrops

namespace Records

variable {P Q : ℚ → ℕ → Prop}

theorem mono (h : Records g peerId P) (hPQ : ∀ r d, P r d → Q r d) : Records g peerId Q :=
  ⟨fun p hp hid => hPQ _ _ (h.member p hp hid),
    fun round hround p hp hid => hPQ _ _ (h.copy round hround p hp hid)⟩

/-- A peer that joins has a new record. -/
theorem join (h : Records g peerId P) {id : Bytes32}
    (hjoin : id = peerId → peerId ∈ g.peerIds ∨ P 1 0) : Records (g.join id) peerId P := by
  unfold DcGroup.join
  split
  next => exact h
  next hnew =>
    refine ⟨fun p hp hid => ?_, h.copy⟩
    rcases List.mem_append.mp hp with hp | hp
    · exact h.member p hp hid
    · obtain rfl := List.mem_singleton.mp hp
      refine (hjoin hid).resolve_left fun hmem => hnew ?_
      obtain ⟨q, hq, hqid⟩ := mem_peerIds.mp hmem
      exact List.any_eq_true.mpr ⟨q, hq, decide_eq_true (hqid.trans hid.symm)⟩

theorem leave (h : Records g peerId P) (id : Bytes32) : Records (g.leave id) peerId P :=
  ⟨fun p hp => h.member p (List.mem_of_mem_filter hp), h.copy⟩

/-- The copy is made from the members. -/
theorem startRound (h : Records g peerId P) (roundId now : ℕ) :
    Records (g.startRound roundId now).1 peerId P := by
  have hfilter : ∀ p ∈ g.participants.filter (!·.isMalicious), p.peerId = peerId →
      P p.reputation p.consecutiveDrops := fun p hp => h.member p (List.mem_of_mem_filter hp)
  unfold DcGroup.startRound
  dsimp only
  split
  · exact ⟨hfilter, h.copy⟩
  · refine ⟨hfilter, fun round hround => ?_⟩
    obtain rfl := Option.some.inj hround
    exact hfilter

/-- The copy is marked, and what is left of it is written back. -/
theorem finishRoundWith (h : Records g peerId P) (hnodup : g.peerIds.Nodup)
    (hround : g.currentRound = some round)
    (hmark : ∀ p ∈ round.participants, p.peerId = peerId → P p.reputation p.consecutiveDrops →
      Q (marked responded p).reputation (marked responded p).consecutiveDrops)
    (hother : (∀ p ∈ round.participants, p.peerId ≠ peerId) → ∀ r d, P r d → Q r d) :
    Records (g.finishRoundWith responded).1 peerId Q := by
  refine ⟨fun p hp hid => ?_, fun round' hround' => ?_⟩
  · rcases mem_finishRoundWith hnodup hround hp with ⟨q, hq, hqid, -, hrep, hdrops⟩ | ⟨hne, hp⟩
    · rw [hrep, hdrops]
      exact hmark q hq (hqid.trans hid) (h.copy round hround q hq (hqid.trans hid))
    · exact hother (fun q hq hqid => hne q hq (hqid.trans hid.symm)) _ _ (h.member p hp hid)
  · rw [(finishRoundWith_eq hround responded).2] at hround'
    cases hround'

/-- What is known stays known if it holds of a new record, when the peer joins, and if rounds keep
it. -/
theorem call (h : Records g peerId P) (hnodup : g.peerIds.Nodup) {c : GroupCall}
    (hjoin : c = .join peerId → peerId ∈ g.peerIds ∨ P 1 0)
    (hmark : ∀ d ∈ g.completes c, ∀ p ∈ d.1.participants, p.peerId = peerId →
      P p.reputation p.consecutiveDrops →
        P (marked d.2 p).reputation (marked d.2 p).consecutiveDrops) :
    Records (g.call c) peerId P := by
  cases c with
  | join id => exact h.join fun hid => hjoin (congrArg GroupCall.join hid)
  | leave id => exact h.leave id
  | startRound roundId now => exact h.startRound roundId now
  | finishRoundWith responded =>
    cases hround : g.currentRound with
    | none =>
      rw [DcGroup.call, DcGroup.finishRoundWith, hround]
      exact h
    | some round =>
      refine h.finishRoundWith hnodup hround (hmark (round, responded) ?_) fun _ _ _ hP => hP
      rw [completes, hround]
      rfl

end Records

/-! ## Peers that do not answer -/

/-- The peer has not answered in `k` rounds in a row, and is in the current round, if there is one.
After three rounds it is evicted. -/
structure Missing (g : DcGroup) (peerId : Bytes32) (k : ℕ) : Prop where
  nodup : g.peerIds.Nodup
  drops : Records g peerId fun _ drops => k ≤ drops
  present : peerId ∈ g.peerIds → ∀ round, g.currentRound = some round →
    ∃ p ∈ round.participants, p.peerId = peerId
  evicted : 3 ≤ k → peerId ∉ g.peerIds

/-- A call that completes no round. -/
theorem Missing.call_of_none {k : ℕ} (h : Missing g peerId k) (hmember : peerId ∈ g.peerIds)
    {c : GroupCall} (hnone : g.completes c = none) : Missing (g.call c) peerId k := by
  have hk : ¬ 3 ≤ k := fun hk => h.evicted hk hmember
  refine ⟨nodup_peerIds_call h.nodup c, ?_, fun hmember' round hround => ?_,
    fun hk' => absurd hk' hk⟩
  · refine h.drops.call h.nodup (fun _ => Or.inl hmember) fun d hd => ?_
    rw [hnone] at hd
    cases hd
  -- a round that is started has the member among its participants
  · cases c with
    | join id =>
      refine h.present hmember round ?_
      rw [← hround, call, join]
      split <;> rfl
    | leave id => exact h.present hmember round hround
    | startRound roundId now =>
      unfold call startRound at hround hmember'
      dsimp only at hround hmember'
      split at hround
      next => exact h.present hmember round hround
      next hstarts =>
        rw [if_neg hstarts] at hmember'
        obtain rfl := Option.some.inj hround
        exact mem_peerIds.mp hmember'
    | finishRoundWith responded =>
      rw [completes, Option.map_eq_none_iff] at hnone
      rw [call, finishRoundWith, hnone] at hround
      cases hnone.symm.trans hround

/-- A round in which the peer does not answer. -/
theorem Missing.finishRoundWith {k : ℕ} (h : Missing g peerId k) (hmember : peerId ∈ g.peerIds)
    (hround : g.currentRound = some round) (hmissing : peerId ∉ responded) :
    Missing (g.finishRoundWith responded).1 peerId (k + 1) := by
  obtain ⟨p, hp, hid⟩ := h.present hmember round hround
  have hpenalized {q : Participant} (hqid : q.peerId = peerId) :
      marked responded q = q.penalize := if_neg (hqid ▸ hmissing)
  refine ⟨nodup_peerIds_call h.nodup (.finishRoundWith responded), ?_, fun _ round' hround' => ?_,
    fun hk hmember' => ?_⟩
  · refine h.drops.finishRoundWith h.nodup hround (fun q _ hqid hdrops => ?_) fun hne => ?_
    · rw [hpenalized hqid]
      exact Nat.succ_le_succ hdrops
    · exact absurd hid (hne p hp)
  · rw [(finishRoundWith_eq hround responded).2] at hround'
    cases hround'
  · -- the third drop in a row makes the peer malicious
    have hclean := ((mem_peerIds_finishRoundWith hround responded peerId).mp hmember').2 p hp hid
    have hdrops := h.drops.copy round hround p hp hid
    rw [hpenalized hid, Participant.isMalicious, Bool.or_eq_false_iff,
      decide_eq_false_iff_not] at hclean
    exact hclean.1 (hk.trans (Nat.succ_le_succ hdrops))

/-- A run in which the peer is a member and answers in no round. -/
theorem Missing.run {k : ℕ} {calls : List GroupCall} (h : Missing g peerId k)
    (hstays : ToMathlib.AllSteps call (fun g _ => peerId ∈ g.peerIds) g calls)
    (hmissing : ∀ d ∈ g.completed calls, peerId ∉ d.2) :
    Missing (calls.foldl call g) peerId (k + (g.completed calls).length) := by
  induction calls generalizing g k with
  | nil => exact h
  | cons c calls ih =>
    obtain ⟨hmember, hstays⟩ := hstays
    rw [completed] at hmissing ⊢
    cases hdone : g.completes c with
    | none =>
      rw [hdone] at hmissing
      exact ih (h.call_of_none hmember hdone) hstays hmissing
    | some d =>
      rw [hdone, Option.toList_some, List.singleton_append] at hmissing
      obtain ⟨hd, hmissing⟩ := List.forall_mem_cons.mp hmissing
      have hnext : Missing (g.call c) peerId (k + 1) := by
        cases c with
        | finishRoundWith responded =>
          obtain ⟨round, hround, rfl⟩ := Option.map_eq_some_iff.mp hdone
          exact h.finishRoundWith hmember hround hd
        | _ => cases hdone
      have hrun := ih hnext hstays hmissing
      rw [Option.toList_some, List.singleton_append, List.length_cons]
      rwa [Nat.add_assoc, Nat.add_comm 1] at hrun

/-- The members of a round that is started are those of the group. -/
theorem missing_startRound (hnodup : g.peerIds.Nodup) {roundId now : ℕ}
    (hstarts : (g.startRound roundId now).2 = some round) :
    Missing (g.startRound roundId now).1 peerId 0 := by
  refine ⟨nodup_peerIds_call hnodup (.startRound roundId now),
    ⟨fun _ _ _ => Nat.zero_le _, fun _ _ _ _ _ => Nat.zero_le _⟩,
    fun hmember round' hround' => ?_, fun hk => absurd hk (by decide)⟩
  unfold startRound at hstarts hmember hround'
  dsimp only at hstarts hmember hround'
  split at hstarts
  next => cases hstarts
  next henough =>
    rw [if_neg henough] at hmember hround'
    obtain rfl := Option.some.inj hround'
    exact mem_peerIds.mp hmember

/-! ## Peers that answer -/

/-- A full reputation, and no drops. -/
def FullRecord (reputation : ℚ) (drops : ℕ) : Prop := reputation = 1 ∧ drops = 0

/-- The peer is a member, and has a full reputation. -/
structure Answering (g : DcGroup) (peerId : Bytes32) : Prop where
  nodup : g.peerIds.Nodup
  full : Records g peerId FullRecord
  member : peerId ∈ g.peerIds

theorem FullRecord.not_malicious {p : Participant}
    (h : FullRecord p.reputation p.consecutiveDrops) : p.isMalicious = false := by
  rw [Participant.isMalicious, h.1, h.2]
  norm_num

/-- A full record stays full when the peer answers. -/
theorem FullRecord.marked {p : Participant} (h : FullRecord p.reputation p.consecutiveDrops)
    (hanswers : p.peerId ∈ responded) :
    FullRecord (marked responded p).reputation (marked responded p).consecutiveDrops := by
  rw [DcGroup.marked, if_pos hanswers]
  refine ⟨?_, rfl⟩
  rw [Participant.reward, h.1]
  norm_num

/-- Only a call of `leave` or a round without an answer could remove the peer. -/
theorem Answering.call (h : Answering g peerId) {c : GroupCall} (hleave : c ≠ .leave peerId)
    (hanswers : ∀ d ∈ g.completes c, (∃ p ∈ d.1.participants, p.peerId = peerId) → peerId ∈ d.2) :
    Answering (g.call c) peerId := by
  have hmark : ∀ d ∈ g.completes c, ∀ p ∈ d.1.participants, p.peerId = peerId →
      FullRecord p.reputation p.consecutiveDrops →
        FullRecord (marked d.2 p).reputation (marked d.2 p).consecutiveDrops :=
    fun d hd p hp hid hfull => hfull.marked (hid ▸ hanswers d hd ⟨p, hp, hid⟩)
  -- the record stays full, so that neither a start nor the end of a round removes the peer
  refine ⟨nodup_peerIds_call h.nodup c,
    h.full.call h.nodup (fun _ => Or.inl h.member) hmark, ?_⟩
  cases c with
  | join id => exact (mem_peerIds_join g id peerId).mpr (Or.inl h.member)
  | leave id =>
    refine (mem_peerIds_leave g id peerId).mpr ⟨h.member, fun heq => hleave ?_⟩
    rw [heq]
  | startRound roundId now =>
    obtain ⟨p, hp, hid⟩ := mem_peerIds.mp h.member
    have hstays : p ∈ g.participants.filter (!·.isMalicious) :=
      List.mem_filter.mpr ⟨hp, by rw [(h.full.member p hp hid).not_malicious]; rfl⟩
    refine mem_peerIds.mpr ⟨p, ?_, hid⟩
    unfold DcGroup.call startRound
    dsimp only
    split <;> exact hstays
  | finishRoundWith responded =>
    cases hround : g.currentRound with
    | none =>
      rw [DcGroup.call, finishRoundWith, hround]
      exact h.member
    | some round =>
      refine (mem_peerIds_finishRoundWith hround responded peerId).mpr
        ⟨h.member, fun q hq hid => FullRecord.not_malicious ?_⟩
      refine hmark (round, responded) ?_ q hq hid (h.full.copy round hround q hq hid)
      rw [completes, hround]
      rfl

/-- A run in which the peer does not leave and answers in every round that it takes part in. -/
theorem Answering.run {calls : List GroupCall} (h : Answering g peerId)
    (hleave : .leave peerId ∉ calls)
    (hanswers : ∀ d ∈ g.completed calls, (∃ p ∈ d.1.participants, p.peerId = peerId) →
      peerId ∈ d.2) : Answering (calls.foldl DcGroup.call g) peerId := by
  induction calls generalizing g with
  | nil => exact h
  | cons c calls ih =>
    rw [List.mem_cons, not_or] at hleave
    rw [completed] at hanswers
    refine ih (h.call (Ne.symm hleave.1) fun d hd => ?_) hleave.2 fun d hd => ?_
    · exact hanswers d (List.mem_append_left _ (Option.mem_toList.mpr hd))
    · exact hanswers d (List.mem_append_right _ hd)

/-! ## Runs from a new group -/

/-- A new group after a number of calls. -/
def after (groupId : Bytes32) (min maxDrop : ℕ) (calls : List GroupCall) : DcGroup :=
  calls.foldl call (new groupId min maxDrop)

variable {groupId : Bytes32} {min maxDrop : ℕ} {calls : List GroupCall}

theorem nodup_peerIds_after : (after groupId min maxDrop calls).peerIds.Nodup := by
  have hrun : ∀ g : DcGroup, g.peerIds.Nodup → (calls.foldl call g).peerIds.Nodup := by
    induction calls with
    | nil => exact fun g hg => hg
    | cons c calls ih => exact fun g hg => ih _ (nodup_peerIds_call hg c)
  exact hrun _ List.nodup_nil

/-- There is no record of a peer that has not joined. -/
theorem records_after (hjoin : .join peerId ∉ calls) :
    Records (after groupId min maxDrop calls) peerId fun _ _ => False := by
  have hrun : ∀ g : DcGroup, g.peerIds.Nodup → Records g peerId (fun _ _ => False) →
      Records (calls.foldl call g) peerId fun _ _ => False := by
    induction calls with
    | nil => exact fun g _ hg => hg
    | cons c calls ih =>
      rw [List.mem_cons, not_or] at hjoin
      intro g hnodup hg
      refine ih hjoin.2 _ (nodup_peerIds_call hnodup c) (hg.call hnodup (fun hc => ?_) ?_)
      · exact absurd hc.symm hjoin.1
      · exact fun _ _ _ _ _ hfalse => hfalse
  refine hrun _ List.nodup_nil ⟨fun p hp => absurd hp List.not_mem_nil, fun round hround => ?_⟩
  cases hround

/-- A peer that joins for the first time has a full record. -/
theorem answering_join (hjoin : .join peerId ∉ calls) :
    Answering ((after groupId min maxDrop calls).join peerId) peerId := by
  refine ⟨nodup_peerIds_join nodup_peerIds_after peerId, ?_,
    (mem_peerIds_join _ _ _).mpr (Or.inr rfl)⟩
  exact ((records_after hjoin).mono fun _ _ => False.elim).join fun _ => Or.inr ⟨rfl, rfl⟩

/-- A member of a round that is started, who stays a member and answers in none of three completed
rounds, is not a member any more after the third. A peer that joins for the first time, does not
leave and answers in every completed round that it takes part in is a member all the time. -/
theorem dropout_eviction (groupId : Bytes32) (min maxDrop : ℕ) (peerId : Bytes32) :
    (∀ (before : List GroupCall) (roundId now : ℕ) (round : DcRound) (g : DcGroup),
      (after groupId min maxDrop before).startRound roundId now = (g, some round) →
      ∀ calls : List GroupCall,
        ToMathlib.AllSteps call (fun g _ => peerId ∈ g.peerIds) g calls →
        (∀ d ∈ g.completed calls, peerId ∉ d.2) → 3 ≤ (g.completed calls).length →
          peerId ∉ (calls.foldl call g).peerIds) ∧
    ∀ before calls : List GroupCall, .join peerId ∉ before → .leave peerId ∉ calls →
      (∀ d ∈ ((after groupId min maxDrop before).join peerId).completed calls,
        (∃ p ∈ d.1.participants, p.peerId = peerId) → peerId ∈ d.2) →
      peerId ∈ (after groupId min maxDrop (before ++ .join peerId :: calls)).peerIds := by
  refine ⟨fun before roundId now round g hstarts calls hstays hmissing hthree => ?_,
    fun before calls hjoin hleave hanswers => ?_⟩
  · have hfirst : Missing g peerId 0 := by
      have hmissing := @missing_startRound (after groupId min maxDrop before) peerId round
        nodup_peerIds_after roundId now (by rw [hstarts])
      rwa [hstarts] at hmissing
    exact (hfirst.run hstays hmissing).evicted (by rwa [Nat.zero_add])
  · rw [after, List.foldl_append, List.foldl_cons]
    exact ((answering_join hjoin).run hleave hanswers).member

/-- A peer id of equal bytes. -/
def sameBytes (b : UInt8) : Bytes32 := .replicate 32 b

/-- Three peers join. -/
def threeJoin : List GroupCall :=
  [.join (sameBytes 2), .join (sameBytes 3), .join (sameBytes 1)]

/-- Three rounds are completed, of which the first one has been started. Peer 3 does not answer. -/
def threeRounds : List GroupCall :=
  [.finishRoundWith [sameBytes 1, sameBytes 2], .startRound 2 0,
    .finishRoundWith [sameBytes 1, sameBytes 2], .startRound 3 0,
    .finishRoundWith [sameBytes 1, sameBytes 2]]

/-- The group of three, with its first round. -/
def threeStarted : DcGroup × Option DcRound :=
  (after (sameBytes 0) 3 2 threeJoin).startRound 1 0

/-- After three rounds peer 3 is evicted, and peer 1 is not. -/
theorem dropout_eviction_three :
    sameBytes 3 ∉ (threeRounds.foldl call threeStarted.1).peerIds ∧
      sameBytes 1 ∈ (after (sameBytes 0) 3 2 ([.join (sameBytes 2), .join (sameBytes 3)] ++
        .join (sameBytes 1) :: .startRound 1 0 :: threeRounds)).peerIds := by
  constructor
  · have hround : threeStarted.2.isSome = true := by decide +kernel
    refine (dropout_eviction (sameBytes 0) 3 2 (sameBytes 3)).1 threeJoin 1 0
      (threeStarted.2.get hround) threeStarted.1 (Prod.ext rfl (Option.some_get hround).symm)
      threeRounds ?_ (by decide +kernel) (by decide +kernel)
    exact ⟨by decide +kernel, by decide +kernel, by decide +kernel, by decide +kernel,
      by decide +kernel, trivial⟩
  · exact (dropout_eviction (sameBytes 0) 3 2 (sameBytes 1)).2 _ _ (by decide +kernel)
      (by decide +kernel) (by decide +kernel)

end DcGroup

end ChronoShift
