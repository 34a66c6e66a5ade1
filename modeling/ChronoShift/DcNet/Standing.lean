import ChronoShift.DcNet.Eviction

/-!
# Standing in a group

How long a peer stays in a DC-Net group, in terms of the rounds that it has answered. A round that
is missed costs three tenths of the reputation, and one that is answered gives a twentieth of the
full one back, so that it depends on how many rounds are answered between two misses.

* `DcGroup.clean_ops`: no member ever counts as malicious between two operations;
* `DcGroup.Standing.run`: the record of a peer is determined by its answers;
* `DcGroup.member_iff_answers`: it stays as long as its answers never make it malicious;
* `DcGroup.member_of_gaps`: three answers after each miss are enough, two are not.
-/

namespace ChronoShift

open ToMathlib (AllStates)

/-- The operations on a group, with those that its owner does not use in a round. -/
inductive GroupOp where
  | call (c : GroupCall)
  | finishRound
  | reform (dropouts : List Bytes32)

namespace Participant

/-- The record after a round, answered or not. -/
def answer (p : Participant) (answered : Bool) : Participant :=
  if answered then p.reward else p.penalize

/-- The two have the same reputation and drops. -/
def SameRecord (p : Participant) (reputation : ℚ) (drops : ℕ) : Prop :=
  reputation = p.reputation ∧ drops = p.consecutiveDrops

variable {p q : Participant}

/-- The next record follows from the answer and the record. -/
theorem SameRecord.answer (h : p.SameRecord q.reputation q.consecutiveDrops) (answered : Bool) :
    (p.answer answered).SameRecord (q.answer answered).reputation
      (q.answer answered).consecutiveDrops := by
  obtain ⟨hreputation, hdrops⟩ := h
  cases answered with
  | true =>
    refine ⟨?_, rfl⟩
    show min (q.reputation + 1 / 20) 1 = min (p.reputation + 1 / 20) 1
    rw [hreputation]
  | false =>
    refine ⟨?_, congrArg (· + 1) hdrops⟩
    show q.reputation * (7 / 10) = p.reputation * (7 / 10)
    rw [hreputation]

/-- Whether a peer is malicious follows from its record. -/
theorem SameRecord.isMalicious (h : p.SameRecord q.reputation q.consecutiveDrops) :
    q.isMalicious = p.isMalicious := by
  rw [Participant.isMalicious, Participant.isMalicious, h.1, h.2]

end Participant

namespace DcGroup

/-- Drop the current round. Members that count as malicious are removed. -/
def finishRound (g : DcGroup) : DcGroup :=
  match g.currentRound with
  | none => g
  | some _ =>
    let malicious := (g.participants.filter (·.isMalicious)).map Participant.peerId
    malicious.foldl leave { g with currentRound := none }

def reform (g : DcGroup) (dropouts : List Bytes32) : DcGroup := dropouts.foldl leave g

def maliciousCount (g : DcGroup) : ℕ := (g.participants.filter (·.isMalicious)).length

def isHealthy (g : DcGroup) : Bool :=
  g.minParticipants ≤ g.participants.length && g.participants.all (!·.isMalicious)

/-- The group after an operation. -/
def op (g : DcGroup) : GroupOp → DcGroup
  | .call c => g.call c
  | .finishRound => g.finishRound
  | .reform dropouts => g.reform dropouts

/-- Whether a peer has answered, in a round that is completed and that it takes part in. -/
def answered (g : DcGroup) (peerId : Bytes32) : GroupOp → Option Bool
  | .call c =>
    (g.completes c).bind fun d =>
      if peerId ∈ d.1.participants.map Participant.peerId then some (decide (peerId ∈ d.2))
      else none
  | _ => none

/-- The answers of a peer in a run. -/
def answers (g : DcGroup) (peerId : Bytes32) : List GroupOp → List Bool
  | [] => []
  | o :: ops => (g.answered peerId o).toList ++ (g.op o).answers peerId ops

/-- The operation lets the peer join, or removes it. -/
def JoinsOrRemoves (peerId : Bytes32) : GroupOp → Prop
  | .call (.join id) => id = peerId
  | .call (.leave id) => id = peerId
  | .reform dropouts => peerId ∈ dropouts
  | _ => False

instance (peerId : Bytes32) : DecidablePred (JoinsOrRemoves peerId) := fun o => by
  unfold JoinsOrRemoves
  split <;> infer_instance

variable {g : DcGroup} {peerId : Bytes32} {round : DcRound} {o : GroupOp}

/-- Only malicious members are removed. -/
theorem finishRound_spec (g : DcGroup) : ∃ ids : List Bytes32,
    (∀ id ∈ ids, ∃ p ∈ g.participants, p.isMalicious = true ∧ p.peerId = id) ∧
      g.finishRound.participants = g.participants.filter (·.peerId ∉ ids) ∧
      g.finishRound.currentRound = none := by
  unfold finishRound
  cases hround : g.currentRound with
  | none => exact ⟨[], by simp, by simp, hround⟩
  | some round =>
    refine ⟨_, fun id hid => ?_, participants_foldl_leave _ _⟩
    obtain ⟨p, hp, rfl⟩ := List.mem_map.mp hid
    obtain ⟨hp, hmalicious⟩ := List.mem_filter.mp hp
    exact ⟨p, hp, hmalicious, rfl⟩

/-- Dropouts are taken out, and nobody else is. -/
theorem participants_reform (g : DcGroup) (dropouts : List Bytes32) :
    (g.reform dropouts).participants = g.participants.filter (·.peerId ∉ dropouts) :=
  (participants_foldl_leave g dropouts).1

/-- A group that is formed anew goes on with its round. -/
theorem currentRound_reform (g : DcGroup) (dropouts : List Bytes32) :
    (g.reform dropouts).currentRound = g.currentRound := (participants_foldl_leave g dropouts).2

/-! ## Malicious members -/

/-- Who has become malicious in a round is removed when it is finished. -/
theorem Clean.finishRoundWith (hclean : g.Clean) (hnodup : g.peerIds.Nodup)
    (responded : List Bytes32) : (g.finishRoundWith responded).1.Clean := by
  intro p hp
  cases hround : g.currentRound with
  | none =>
    rw [DcGroup.finishRoundWith, hround] at hp
    exact hclean p hp
  | some round =>
    rcases mem_finishRoundWith hnodup hround hp with ⟨q, -, -, hq, hreputation, hdrops⟩ | ⟨-, hp⟩
    · rw [← hq]
      exact Participant.SameRecord.isMalicious ⟨hreputation, hdrops⟩
    · exact hclean p hp

/-- No operation lists a member twice. -/
theorem nodup_peerIds_op (hnodup : g.peerIds.Nodup) (o : GroupOp) : (g.op o).peerIds.Nodup := by
  cases o with
  | call c => exact nodup_peerIds_call hnodup c
  | finishRound =>
    obtain ⟨ids, -, hparticipants, -⟩ := g.finishRound_spec
    rw [op, peerIds, hparticipants]
    exact hnodup.sublist (List.filter_sublist.map _)
  | reform dropouts =>
    rw [op, peerIds, participants_reform]
    exact hnodup.sublist (List.filter_sublist.map _)

/-- Every operation leaves a group without malicious members. -/
theorem Clean.op (h : g.Clean) (hnodup : g.peerIds.Nodup) (o : GroupOp) : (g.op o).Clean := by
  cases o with
  | call c =>
    cases c with
    | join id => exact h.join id
    | leave id => exact h.leave id
    | startRound roundId now => exact clean_startRound g roundId now
    | finishRoundWith responded => exact h.finishRoundWith hnodup responded
  | finishRound =>
    obtain ⟨ids, -, hparticipants, -⟩ := g.finishRound_spec
    intro p hp
    rw [DcGroup.op, hparticipants] at hp
    exact h p (List.mem_of_mem_filter hp)
  | reform dropouts =>
    intro p hp
    rw [DcGroup.op, participants_reform] at hp
    exact h p (List.mem_of_mem_filter hp)

/-- A new group after a number of operations. -/
def afterOps (groupId : Bytes32) (min maxDrop : ℕ) (ops : List GroupOp) : DcGroup :=
  ops.foldl op (new groupId min maxDrop)

/-- Those that count as malicious are removed when the round in which they do so is finished, so
that there are none between two operations. -/
theorem clean_ops (groupId : Bytes32) (min maxDrop : ℕ) (ops : List GroupOp) :
    (afterOps groupId min maxDrop ops).peerIds.Nodup ∧
      (afterOps groupId min maxDrop ops).Clean := by
  have hrun : ∀ g : DcGroup, g.peerIds.Nodup ∧ g.Clean →
      (ops.foldl op g).peerIds.Nodup ∧ (ops.foldl op g).Clean := by
    induction ops with
    | nil => exact fun g hg => hg
    | cons o ops ih => exact fun g hg => ih _ ⟨nodup_peerIds_op hg.1 o, hg.2.op hg.1 o⟩
  exact hrun _ ⟨List.nodup_nil, fun p hp => absurd hp List.not_mem_nil⟩

/-- So a group is healthy as soon as it has enough members. -/
theorem isHealthy_ops (groupId : Bytes32) (min maxDrop : ℕ) (ops : List GroupOp) :
    (afterOps groupId min maxDrop ops).maliciousCount = 0 ∧
      ((afterOps groupId min maxDrop ops).isHealthy = true ↔
        (afterOps groupId min maxDrop ops).minParticipants ≤
          (afterOps groupId min maxDrop ops).participants.length) := by
  have hclean := (clean_ops groupId min maxDrop ops).2
  refine ⟨?_, ?_⟩
  · rw [maliciousCount, List.length_eq_zero_iff, List.filter_eq_nil_iff]
    exact fun p hp => by simp [hclean p hp]
  · rw [isHealthy, Bool.and_eq_true, decide_eq_true_eq]
    refine and_iff_left (List.all_eq_true.mpr fun p hp => ?_)
    rw [hclean p hp]
    rfl

/-! ## The record of a peer -/

namespace Records

variable {P : ℚ → ℕ → Prop}

/-- A dropped round changes no record. -/
theorem finishRound (h : Records g peerId P) : Records g.finishRound peerId P := by
  obtain ⟨ids, -, hparticipants, hround⟩ := g.finishRound_spec
  refine ⟨fun p hp => h.member p ?_, fun round hround' => ?_⟩
  · rw [hparticipants] at hp
    exact List.mem_of_mem_filter hp
  · rw [hround] at hround'
    cases hround'

/-- Dropouts change nobody else's record. -/
theorem reform (h : Records g peerId P) (dropouts : List Bytes32) :
    Records (g.reform dropouts) peerId P := by
  refine ⟨fun p hp => h.member p ?_, fun round hround => h.copy round ?_⟩
  · rw [participants_reform] at hp
    exact List.mem_of_mem_filter hp
  · rwa [currentRound_reform] at hround

end Records

/-- The record of a peer is that of its answers, and it is a member as long as they do not make it
malicious. -/
structure Standing (g : DcGroup) (peerId : Bytes32) (answers : List Bool) : Prop where
  nodup : g.peerIds.Nodup
  member : peerId ∈ g.peerIds ↔
    AllStates Participant.answer (·.isMalicious = false) (.new peerId) answers
  record : Records g peerId (answers.foldl Participant.answer (.new peerId)).SameRecord
  copy : ∀ round, g.currentRound = some round →
    peerId ∈ round.participants.map Participant.peerId → peerId ∈ g.peerIds

namespace Standing

variable {answers : List Bool}

/-- A member is not malicious, as its answers are not. -/
theorem isMalicious_of_member (h : Standing g peerId answers) {p : Participant}
    (hp : p ∈ g.participants) (hid : p.peerId = peerId) : p.isMalicious = false := by
  rw [(h.record.member p hp hid).isMalicious]
  exact (h.member.mp (mem_peerIds.mpr ⟨p, hp, hid⟩)).last

/-- What keeps the record of the peer, and whether it is a member. -/
theorem of_mem_iff (h : Standing g peerId answers) {g' : DcGroup} (hnodup : g'.peerIds.Nodup)
    (hmember : peerId ∈ g'.peerIds ↔ peerId ∈ g.peerIds)
    (hrecord : Records g' peerId (answers.foldl Participant.answer (.new peerId)).SameRecord)
    (hround : ∀ round, g'.currentRound = some round → g.currentRound = some round ∨
      round.participants = g'.participants) : Standing g' peerId answers := by
  refine ⟨hnodup, hmember.trans h.member, hrecord, fun round hr hcopy => ?_⟩
  rcases hround round hr with hr | hr
  · exact hmember.mpr (h.copy round hr hcopy)
  · rwa [hr] at hcopy

/-- Members that are not the peer, or are malicious, are taken out. -/
theorem mem_peerIds_of_filter (h : Standing g peerId answers) {g' : DcGroup}
    {keep : Participant → Bool} (hfilter : g'.participants = g.participants.filter keep)
    (hkeep : ∀ p ∈ g.participants, p.peerId = peerId → p.isMalicious = false → keep p = true) :
    peerId ∈ g'.peerIds ↔ peerId ∈ g.peerIds := by
  rw [mem_peerIds, mem_peerIds, hfilter]
  refine ⟨fun ⟨p, hp, hid⟩ => ⟨p, List.mem_of_mem_filter hp, hid⟩, fun ⟨p, hp, hid⟩ => ?_⟩
  exact ⟨p, List.mem_filter.mpr ⟨hp, hkeep p hp hid (h.isMalicious_of_member hp hid)⟩, hid⟩

/-- An operation that completes no round with the peer. -/
theorem op_of_none (hnone : g.answered peerId o = none) (h : Standing (g.op o) peerId answers) :
    Standing (g.op o) peerId (answers ++ (g.answered peerId o).toList) := by
  rwa [hnone, Option.toList_none, List.append_nil]

/-- A round that is completed. -/
theorem finishRoundWith (h : Standing g peerId answers) (hround : g.currentRound = some round)
    (responded : List Bytes32) :
    Standing (g.finishRoundWith responded).1 peerId
      (answers ++ (g.answered peerId (.call (.finishRoundWith responded))).toList) := by
  have hnone : (g.finishRoundWith responded).1.currentRound = none :=
    (finishRoundWith_eq hround responded).2
  have hcopy : ∀ round', (g.finishRoundWith responded).1.currentRound = some round' →
      peerId ∈ round'.participants.map Participant.peerId →
        peerId ∈ (g.finishRoundWith responded).1.peerIds := by
    intro round' hround'
    rw [hnone] at hround'
    cases hround'
  have hmember := mem_peerIds_finishRoundWith hround responded peerId
  have hnodup := nodup_peerIds_call h.nodup (.finishRoundWith responded)
  have hanswered : g.answered peerId (.call (.finishRoundWith responded)) =
      if peerId ∈ round.participants.map Participant.peerId then
        some (decide (peerId ∈ responded)) else none := by
    rw [answered, completes, hround]
    rfl
  rw [hanswered]
  -- the peer has taken part in the round, or the round says nothing about it
  by_cases hin : peerId ∈ round.participants.map Participant.peerId
  · rw [if_pos hin, Option.toList_some]
    have hmark {q : Participant} (hid : q.peerId = peerId) :
        marked responded q = q.answer (decide (peerId ∈ responded)) := by
      rw [marked, Participant.answer, hid]
      simp only [decide_eq_true_eq]
    have hsame {q : Participant} (hq : q ∈ round.participants) (hid : q.peerId = peerId) :
        ((answers ++ [decide (peerId ∈ responded)]).foldl Participant.answer
          (.new peerId)).SameRecord (marked responded q).reputation
            (marked responded q).consecutiveDrops := by
      rw [hmark hid, List.foldl_append, List.foldl_cons, List.foldl_nil]
      exact (h.record.copy round hround q hq hid).answer _
    refine ⟨hnodup, ?_, ?_, hcopy⟩
    · rw [hmember, h.member, ToMathlib.allStates_concat]
      refine and_congr_right fun _ => ⟨fun hclean => ?_, fun hclean q hq hid => ?_⟩
      · obtain ⟨q, hq, hid⟩ := List.mem_map.mp hin
        rw [← (hsame hq hid).isMalicious]
        exact hclean q hq hid
      · rw [(hsame hq hid).isMalicious]
        exact hclean
    · exact h.record.finishRoundWith h.nodup hround (fun q hq hid _ => hsame hq hid)
        fun hne _ _ _ => absurd hin fun hin => by
          obtain ⟨q, hq, hid⟩ := List.mem_map.mp hin
          exact hne q hq hid
  · rw [if_neg hin, Option.toList_none, List.append_nil]
    have hne : ∀ q ∈ round.participants, q.peerId ≠ peerId := fun q hq hid =>
      hin (List.mem_map.mpr ⟨q, hq, hid⟩)
    refine ⟨hnodup, ?_, ?_, hcopy⟩
    · rw [hmember, h.member]
      exact and_iff_left fun q hq hid => absurd hid (hne q hq)
    · exact h.record.finishRoundWith h.nodup hround
        (fun q hq hid _ => absurd hid (hne q hq)) fun _ _ _ hP => hP

/-- An operation that neither lets the peer join nor removes it. -/
theorem op (h : Standing g peerId answers) (ho : ¬ JoinsOrRemoves peerId o) :
    Standing (g.op o) peerId (answers ++ (g.answered peerId o).toList) := by
  cases o with
  | call c =>
    cases c with
    | join id =>
      refine op_of_none rfl (h.of_mem_iff (nodup_peerIds_join h.nodup id) ?_
        (h.record.join fun hid => absurd hid ho) fun round hround => .inl ?_)
      · exact (mem_peerIds_join g id peerId).trans (or_iff_left fun hid => ho hid.symm)
      · rw [← hround, DcGroup.op, call, join]
        split <;> rfl
    | leave id =>
      refine op_of_none rfl (h.of_mem_iff (nodup_peerIds_leave h.nodup id) ?_ (h.record.leave id)
        fun round hround => .inl hround)
      exact (mem_peerIds_leave g id peerId).trans (and_iff_left fun hid => ho hid.symm)
    | startRound roundId now =>
      have hfilter : (g.startRound roundId now).1.participants =
          g.participants.filter (!·.isMalicious) := by
        unfold DcGroup.startRound
        dsimp only
        split <;> rfl
      refine op_of_none rfl (h.of_mem_iff (nodup_peerIds_call h.nodup (.startRound roundId now)) ?_
        (h.record.startRound roundId now) fun round hround => ?_)
      · exact h.mem_peerIds_of_filter hfilter fun p _ _ hclean => by simp [hclean]
      · unfold DcGroup.op DcGroup.call DcGroup.startRound at hround ⊢
        dsimp only at hround ⊢
        split at hround
        · exact .inl hround
        next hmin =>
          rw [if_neg hmin]
          obtain rfl := Option.some.inj hround
          exact .inr rfl
    | finishRoundWith responded =>
      cases hround : g.currentRound with
      | none =>
        have hsame : (g.finishRoundWith responded).1 = g := by
          rw [DcGroup.finishRoundWith, hround]
        refine op_of_none (by rw [answered, completes, hround]; rfl) ?_
        rwa [DcGroup.op, call, hsame]
      | some round => exact h.finishRoundWith hround responded
  | finishRound =>
    obtain ⟨ids, hids, hparticipants, hnone⟩ := g.finishRound_spec
    refine op_of_none rfl (h.of_mem_iff (nodup_peerIds_op h.nodup .finishRound) ?_
      h.record.finishRound fun round hround => ?_)
    · refine h.mem_peerIds_of_filter hparticipants fun p hp hid _ => decide_eq_true fun hmem => ?_
      obtain ⟨q, hq, hmalicious, hqid⟩ := hids _ hmem
      rw [h.isMalicious_of_member hq (hqid.trans hid)] at hmalicious
      cases hmalicious
    · rw [DcGroup.op, hnone] at hround
      cases hround
  | reform dropouts =>
    refine op_of_none rfl (h.of_mem_iff (nodup_peerIds_op h.nodup (.reform dropouts)) ?_
      (h.record.reform dropouts) fun round hround => .inl ?_)
    · refine h.mem_peerIds_of_filter (participants_reform g dropouts) fun p _ hid _ => ?_
      exact decide_eq_true fun hmem => ho (hid ▸ hmem)
    · rwa [DcGroup.op, currentRound_reform] at hround

/-- The record of a peer over a run in which it neither joins nor is removed. -/
theorem run {ops : List GroupOp} (h : Standing g peerId answers)
    (hops : ∀ o ∈ ops, ¬ JoinsOrRemoves peerId o) :
    Standing (ops.foldl DcGroup.op g) peerId (answers ++ g.answers peerId ops) := by
  induction ops generalizing g answers with
  | nil => rwa [DcGroup.answers, List.append_nil]
  | cons o ops ih =>
    obtain ⟨ho, hops⟩ := List.forall_mem_cons.mp hops
    rw [DcGroup.answers, ← List.append_assoc]
    exact ih (h.op ho) hops

end Standing

/-! ## Runs from a new group -/

/-- There is no record of a peer that has not joined. -/
theorem records_afterOps {groupId : Bytes32} {min maxDrop : ℕ} {ops : List GroupOp}
    (hjoin : .call (.join peerId) ∉ ops) :
    Records (afterOps groupId min maxDrop ops) peerId fun _ _ => False := by
  have hrun : ∀ g : DcGroup, g.peerIds.Nodup → Records g peerId (fun _ _ => False) →
      Records (ops.foldl op g) peerId fun _ _ => False := by
    induction ops with
    | nil => exact fun g _ hg => hg
    | cons o ops ih =>
      rw [List.mem_cons, not_or] at hjoin
      intro g hnodup hg
      refine ih hjoin.2 _ (nodup_peerIds_op hnodup o) ?_
      cases o with
      | call c =>
        refine hg.call hnodup (fun hc => absurd ?_ hjoin.1) fun _ _ _ _ _ hfalse => hfalse
        rw [hc]
      | finishRound => exact hg.finishRound
      | reform dropouts => exact hg.reform dropouts
  refine hrun _ List.nodup_nil ⟨fun p hp => absurd hp List.not_mem_nil, fun round hround => ?_⟩
  cases hround

/-- A new member is not malicious. -/
theorem isMalicious_new (peerId : Bytes32) : (Participant.new peerId).isMalicious = false :=
  FullRecord.not_malicious ⟨rfl, rfl⟩

/-- A peer that joins for the first time has given no answers. -/
theorem standing_join {groupId : Bytes32} {min maxDrop : ℕ} {ops : List GroupOp}
    (hjoin : .call (.join peerId) ∉ ops) :
    Standing ((afterOps groupId min maxDrop ops).join peerId) peerId [] := by
  have hnone := @records_afterOps peerId groupId min maxDrop ops hjoin
  refine ⟨nodup_peerIds_join (clean_ops groupId min maxDrop ops).1 peerId, ?_, ?_, fun _ _ _ => ?_⟩
  · exact iff_of_true ((mem_peerIds_join _ _ _).mpr (.inr rfl)) (isMalicious_new peerId)
  · exact (hnone.mono fun _ _ => False.elim).join fun _ => .inr ⟨rfl, rfl⟩
  · exact (mem_peerIds_join _ _ _).mpr (.inr rfl)

variable {before ops : List GroupOp}

/-- A peer that joins for the first time, and is neither removed by the owner of the group nor joins
again, is a member after any run of operations if and only if the answers that it has given, in the
rounds that were completed and that it took part in, have never made a new record malicious. -/
theorem member_iff_answers (groupId : Bytes32) (min maxDrop : ℕ) (peerId : Bytes32)
    (hjoin : .call (.join peerId) ∉ before) (hops : ∀ o ∈ ops, ¬ JoinsOrRemoves peerId o) :
    let g := (afterOps groupId min maxDrop before).join peerId
    peerId ∈ (ops.foldl op g).peerIds ↔
      AllStates Participant.answer (·.isMalicious = false) (.new peerId)
        (g.answers peerId ops) := by
  intro g
  exact ((standing_join hjoin).run hops).member

/-- A peer. -/
def samplePeer : Bytes32 := .replicate 32 1

/-- Rounds of a group of its own, which it answers or not. -/
def roundsWith (answers : List Bool) : List GroupOp :=
  answers.flatMap fun a =>
    [.call (.startRound 1 0), .call (.finishRoundWith (if a then [samplePeer] else []))]

/-- One missed round does not cost the membership. -/
theorem member_iff_answers_two :
    samplePeer ∈ ((roundsWith [true, false]).foldl op
      ((afterOps samplePeer 1 0 []).join samplePeer)).peerIds := by
  refine (@member_iff_answers [] (roundsWith [true, false]) samplePeer 1 0 samplePeer
    List.not_mem_nil (by decide)).mpr ?_
  rw [show ((afterOps samplePeer 1 0 []).join samplePeer).answers samplePeer
    (roundsWith [true, false]) = [true, false] by decide +kernel]
  have hlast : (((Participant.new samplePeer).answer true).answer false).isMalicious = false := by
    decide +kernel
  exact ⟨by decide +kernel, by decide +kernel, hlast⟩

/-! ## Answers between two misses -/

/-- The answers of a peer that misses a round after each of these numbers of answers, and that has
answered in `last` rounds since. -/
def answersWithGaps (gaps : List ℕ) (last : ℕ) : List Bool :=
  gaps.flatMap (fun n => List.replicate n true ++ [false]) ++ List.replicate last true

variable {p : Participant} {n last : ℕ} {gaps : List ℕ}

/-- The answers before the first miss, the miss, and what follows. -/
theorem answersWithGaps_cons (n : ℕ) (gaps : List ℕ) (last : ℕ) :
    answersWithGaps (n :: gaps) last =
      (List.replicate n true ++ [false]) ++ answersWithGaps gaps last := by
  rw [answersWithGaps, List.flatMap_cons, List.append_assoc]
  rfl

/-- Every answer adds a twentieth, up to full reputation. -/
theorem reputation_answers (hle : p.reputation ≤ 1) (n : ℕ) :
    ((List.replicate n true).foldl Participant.answer p).reputation =
      min (p.reputation + n / 20) 1 := by
  induction n generalizing p with
  | zero => simp [hle]
  | succ n ih =>
    rw [List.replicate_succ, List.foldl_cons, ih (min_le_right _ _)]
    show min (min (p.reputation + 1 / 20) 1 + n / 20) 1 = _
    have hn : (0 : ℚ) ≤ n := n.cast_nonneg
    rw [Nat.cast_succ]
    rcases le_total (p.reputation + 1 / 20) 1 with hsum | hsum
    · rw [min_eq_left hsum]
      congr 1
      ring
    · rw [min_eq_right hsum, min_eq_right (by linarith), min_eq_right (by linarith)]

/-- An answer clears the missed rounds. -/
theorem drops_answers (h : 0 < n ∨ p.consecutiveDrops = 0) :
    ((List.replicate n true).foldl Participant.answer p).consecutiveDrops = 0 := by
  induction n generalizing p with
  | zero => exact h.resolve_left (lt_irrefl 0)
  | succ n ih => exact ih (.inr rfl)

/-- Answers make nobody malicious. -/
theorem clean_answers (h : p.isMalicious = false) (n : ℕ) :
    AllStates Participant.answer (·.isMalicious = false) p (List.replicate n true) := by
  induction n generalizing p with
  | zero => exact h
  | succ n ih => exact ⟨h, ih (reward_not_malicious h)⟩

/-- The two limits on the record of a member. -/
theorem isMalicious_eq_false_iff :
    p.isMalicious = false ↔ p.consecutiveDrops < 3 ∧ 3 / 10 ≤ p.reputation := by
  rw [Participant.isMalicious, Bool.or_eq_false_iff, decide_eq_false_iff_not,
    decide_eq_false_iff_not, not_le, not_lt]

/-- The record after a miss that does not make the peer malicious. -/
structure AfterMiss (p : Participant) : Prop where
  enough : 3 / 10 ≤ p.reputation
  le_one : p.reputation ≤ 1
  drops : p.consecutiveDrops = 1

/-- Such a peer is still a member. -/
theorem AfterMiss.isMalicious (h : AfterMiss p) : p.isMalicious = false :=
  isMalicious_eq_false_iff.mpr ⟨by rw [h.drops]; decide, h.enough⟩

/-- With nine twentieths of the full reputation a miss is not too much. -/
theorem afterMiss_of_gap (hle : p.reputation ≤ 1) (hclean : p.isMalicious = false)
    (henough : 9 / 20 ≤ p.reputation + n / 20) (hdrops : 0 < n ∨ p.consecutiveDrops = 0) :
    AllStates Participant.answer (·.isMalicious = false) p (List.replicate n true ++ [false]) ∧
      AfterMiss ((List.replicate n true ++ [false]).foldl Participant.answer p) := by
  have hreputation := reputation_answers hle n
  have hmiss : AfterMiss ((List.replicate n true ++ [false]).foldl Participant.answer p) := by
    rw [List.foldl_append, List.foldl_cons, List.foldl_nil]
    refine ⟨?_, ?_, congrArg (· + 1) (drops_answers hdrops)⟩
    · show 3 / 10 ≤ _ * (7 / 10)
      have hmin : 9 / 20 ≤ min (p.reputation + n / 20) 1 := le_min henough (by norm_num)
      rw [hreputation]
      linarith
    · show _ * (7 / 10) ≤ 1
      have hmin : min (p.reputation + n / 20) 1 ≤ 1 := min_le_right _ _
      rw [hreputation]
      linarith
  exact ⟨ToMathlib.allStates_concat.mpr ⟨clean_answers hclean n, hmiss.isMalicious⟩, hmiss⟩

/-- Three answers after a miss make up for the next one. -/
theorem AfterMiss.clean (h : AfterMiss p) (hgaps : ∀ n ∈ gaps, 3 ≤ n) (last : ℕ) :
    AllStates Participant.answer (·.isMalicious = false) p (answersWithGaps gaps last) := by
  induction gaps generalizing p with
  | nil => exact clean_answers h.isMalicious last
  | cons n gaps ih =>
    obtain ⟨hn, hgaps⟩ := List.forall_mem_cons.mp hgaps
    have hn' : (3 : ℚ) ≤ n := by exact_mod_cast hn
    obtain ⟨hgap, hmiss⟩ := @afterMiss_of_gap p n h.le_one h.isMalicious (by linarith [h.enough])
      (.inl (Nat.zero_lt_of_lt hn))
    rw [answersWithGaps_cons, ToMathlib.allStates_append]
    exact ⟨hgap, ih hmiss hgaps⟩

/-- A peer that answers at least three times between two misses is never malicious. -/
theorem clean_of_gaps (peerId : Bytes32) (hgaps : ∀ n ∈ gaps.tail, 3 ≤ n) (last : ℕ) :
    AllStates Participant.answer (·.isMalicious = false) (.new peerId)
      (answersWithGaps gaps last) := by
  cases gaps with
  | nil => exact clean_answers (isMalicious_new peerId) last
  | cons n gaps =>
    -- before the first miss the reputation is full
    have hn : (0 : ℚ) ≤ n := n.cast_nonneg
    obtain ⟨hgap, hmiss⟩ := @afterMiss_of_gap (.new peerId) n le_rfl (isMalicious_new peerId)
      (by show 9 / 20 ≤ (1 : ℚ) + n / 20; linarith) (.inr rfl)
    rw [answersWithGaps_cons, ToMathlib.allStates_append]
    exact ⟨hgap, hmiss.clean hgaps last⟩

/-- What is left at most of a full reputation after `m` misses, with two answers before each. -/
def bound (m : ℕ) : ℚ := 7 / 30 + 23 / 30 * (7 / 10) ^ m

/-- Two answers do not make up for a miss. -/
theorem reputation_le_bound {m : ℕ} (hle : p.reputation ≤ 1) (hbound : p.reputation ≤ bound m)
    (hgaps : ∀ n ∈ gaps, n ≤ 2) :
    ((answersWithGaps gaps 0).foldl Participant.answer p).reputation ≤ bound (m + gaps.length) := by
  induction gaps generalizing p m with
  | nil => exact hbound
  | cons n gaps ih =>
    obtain ⟨hn, hgaps⟩ := List.forall_mem_cons.mp hgaps
    have hn' : (n : ℚ) ≤ 2 := by exact_mod_cast hn
    have hmin : min (p.reputation + n / 20) 1 ≤ p.reputation + n / 20 := min_le_left _ _
    have hone : min (p.reputation + n / 20) 1 ≤ 1 := min_le_right _ _
    rw [answersWithGaps_cons, List.foldl_append, List.foldl_append, List.foldl_cons,
      List.foldl_nil, List.length_cons, Nat.add_comm gaps.length, ← Nat.add_assoc]
    refine ih ?_ ?_ hgaps
    · show _ * (7 / 10) ≤ (1 : ℚ)
      rw [reputation_answers hle]
      linarith
    · show _ * (7 / 10) ≤ bound (m + 1)
      rw [reputation_answers hle]
      rw [bound] at hbound ⊢
      rw [pow_succ]
      linarith

/-- A peer that answers at most twice before each of seven misses is malicious at some time. -/
theorem not_clean_of_gaps (peerId : Bytes32) (hgaps : ∀ n ∈ gaps, n ≤ 2) (hseven : 7 ≤ gaps.length)
    (last : ℕ) : ¬ AllStates Participant.answer (·.isMalicious = false) (.new peerId)
      (answersWithGaps gaps last) := by
  intro hclean
  have hlast := (ToMathlib.allStates_append.mp hclean).1.last
  have hle := @reputation_le_bound (.new peerId) gaps 0 le_rfl
    (by norm_num [bound, Participant.new]) hgaps
  rw [answersWithGaps, List.replicate_zero, List.append_nil] at hle
  have hbound : bound (0 + gaps.length) ≤ bound 7 := by
    rw [Nat.zero_add, bound, bound]
    have hpow : (7 / 10 : ℚ) ^ gaps.length ≤ (7 / 10) ^ 7 :=
      pow_le_pow_of_le_one (by norm_num) (by norm_num) hseven
    linarith
  have hseventh : bound 7 < 3 / 10 := by norm_num [bound]
  linarith [(isMalicious_eq_false_iff.mp hlast).2]

/-- A peer that joins for the first time, and is neither removed by the owner of the group nor joins
again, stays a member if it answers in at least three rounds between any two that it misses,
however many it misses. If it never answers in three rounds in a row, it is no member any more when
it has missed seven. -/
theorem member_of_gaps (groupId : Bytes32) (min maxDrop : ℕ) (peerId : Bytes32)
    (hjoin : .call (.join peerId) ∉ before) (hops : ∀ o ∈ ops, ¬ JoinsOrRemoves peerId o)
    (hanswers : ((afterOps groupId min maxDrop before).join peerId).answers peerId ops =
      answersWithGaps gaps last) :
    ((∀ n ∈ gaps.tail, 3 ≤ n) →
      peerId ∈ (ops.foldl op ((afterOps groupId min maxDrop before).join peerId)).peerIds) ∧
    ((∀ n ∈ gaps, n ≤ 2) → 7 ≤ gaps.length →
      peerId ∉ (ops.foldl op ((afterOps groupId min maxDrop before).join peerId)).peerIds) := by
  have hmember := ((@standing_join peerId groupId min maxDrop before hjoin).run hops).member
  rw [List.nil_append, hanswers] at hmember
  exact ⟨fun hgaps => hmember.mpr (clean_of_gaps peerId hgaps last), fun hgaps hseven hmem =>
    not_clean_of_gaps peerId hgaps hseven last (hmember.mp hmem)⟩

/-- Two answers before each miss. -/
theorem evicted_two_answers : samplePeer ∉
    ((roundsWith (answersWithGaps (List.replicate 7 2) 0)).foldl op
      ((afterOps samplePeer 1 0 []).join samplePeer)).peerIds :=
  (@member_of_gaps [] (roundsWith (answersWithGaps (List.replicate 7 2) 0)) 0 (List.replicate 7 2)
    samplePeer 1 0 samplePeer List.not_mem_nil (by decide) (by decide +kernel)).2 (by decide)
      (by decide)

end DcGroup

end ChronoShift
