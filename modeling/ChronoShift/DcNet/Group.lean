import ChronoShift.Basic
import Mathlib.Algebra.Order.Ring.Rat
import Mathlib.Tactic.Linarith

/-!
# Round groups

The members of a channel's DC-Net group (`dcnet/mod.rs`, `dcnet/group.rs`, `dcnet/round.rs`).
Reputations are rational numbers. Members lose reputation when they do not answer in a round, and
are removed once they count as malicious.

* `DcGroup.peerIds_startRound`, `DcGroup.finishRoundWith_spec`: a round that everybody answers
  removes nobody but those who counted as malicious before.
-/

namespace ChronoShift

/-- Ids are compared byte by byte. -/
instance : LawfulBEq Bytes32 := inferInstance

/-- A member of a group. -/
structure Participant where
  peerId : Bytes32
  reputation : ℚ
  consecutiveDrops : ℕ
  roundsParticipated : ℕ

namespace Participant

/-- A new member, with full reputation. -/
def new (peerId : Bytes32) : Participant := ⟨peerId, 1, 0, 0⟩

/-- The member did not answer. -/
def penalize (p : Participant) : Participant :=
  { p with consecutiveDrops := p.consecutiveDrops + 1, reputation := p.reputation * (7 / 10) }

/-- The member answered. -/
def reward (p : Participant) : Participant :=
  { p with consecutiveDrops := 0, reputation := min (p.reputation + 1 / 20) 1 }

/-- Three drops in a row, or too little reputation. -/
def isMalicious (p : Participant) : Bool := 3 ≤ p.consecutiveDrops || p.reputation < 3 / 10

/-- Copy the reputation of another participant. -/
def absorbFrom (p other : Participant) : Participant :=
  { p with
    reputation := other.reputation
    consecutiveDrops := other.consecutiveDrops
    roundsParticipated := other.roundsParticipated }

end Participant

/-- The state of a local round. -/
inductive RoundState where
  | collecting
  | broadcasting
  | complete
  | failed
  deriving DecidableEq

/-- A local round of a group. -/
structure DcRound where
  roundId : ℕ
  participants : List Participant
  state : RoundState
  deadline : ℕ
  maxDropouts : ℕ

namespace DcRound

/-- A round that lasts for 30 seconds. -/
def new (roundId : ℕ) (participants : List Participant) (maxDropouts now : ℕ) : DcRound :=
  ⟨roundId, participants, .collecting, now + 30, maxDropouts⟩

/-- Reward those who have responded and penalize the others, who are returned. -/
def markDropouts (r : DcRound) (responded : List Bytes32) : DcRound × List Bytes32 :=
  let dropouts := (r.participants.filter (·.peerId ∉ responded)).map Participant.peerId
  ({ r with
      participants := r.participants.map fun p =>
        if p.peerId ∈ responded then p.reward else p.penalize
      state := if r.maxDropouts < dropouts.length then .failed else .complete }, dropouts)

/-- Remove the malicious members, who are returned. -/
def removeMalicious (r : DcRound) : DcRound × List Bytes32 :=
  ({ r with participants := r.participants.filter (!·.isMalicious) },
    (r.participants.filter (·.isMalicious)).map Participant.peerId)

end DcRound

/-- The group of a channel. -/
structure DcGroup where
  groupId : Bytes32
  participants : List Participant
  currentRound : Option DcRound
  minParticipants : ℕ
  maxDropouts : ℕ

namespace DcGroup

/-- A group without members. -/
def new (groupId : Bytes32) (min maxDrop : ℕ) : DcGroup := ⟨groupId, [], none, min, maxDrop⟩

/-- Add a member that is not in the group. -/
def join (g : DcGroup) (peerId : Bytes32) : DcGroup :=
  if g.participants.any (·.peerId = peerId) then g
  else { g with participants := g.participants ++ [Participant.new peerId] }

/-- Remove a member. -/
def leave (g : DcGroup) (peerId : Bytes32) : DcGroup :=
  { g with participants := g.participants.filter (·.peerId ≠ peerId) }

/-- Start a round with the members that are not malicious, if there are enough of them. -/
def startRound (g : DcGroup) (roundId now : ℕ) : DcGroup × Option DcRound :=
  -- the malicious members are gone even if no round is started
  let g := { g with participants := g.participants.filter (!·.isMalicious) }
  if g.participants.length < g.minParticipants then (g, none)
  else
    let round := DcRound.new roundId g.participants g.maxDropouts now
    ({ g with currentRound := some round }, some round)

/-- Copy the reputation of a round's member to the member of the group with its id. -/
def writeBack : List Participant → Participant → List Participant
  | [], _ => []
  | p :: ps, rp => if p.peerId = rp.peerId then p.absorbFrom rp :: ps else p :: writeBack ps rp

/-- Finish the current round: write the reputations back and remove the malicious members. The
dropouts and the malicious members are returned. -/
def finishRoundWith (g : DcGroup) (responded : List Bytes32) :
    DcGroup × List Bytes32 × List Bytes32 :=
  match g.currentRound with
  | none => (g, [], [])
  | some round =>
    let (round, dropouts) := round.markDropouts responded
    let (round, malicious) := round.removeMalicious
    let g := { g with
      participants := round.participants.foldl writeBack g.participants
      currentRound := none }
    (malicious.foldl leave g, dropouts, malicious)

/-- The ids of the members. -/
def peerIds (g : DcGroup) : List Bytes32 := g.participants.map Participant.peerId

/-! ## Who is in the group -/

/-- The ids of a group are those of its members. -/
theorem mem_peerIds {g : DcGroup} {id : Bytes32} :
    id ∈ g.peerIds ↔ ∃ p ∈ g.participants, p.peerId = id := List.mem_map

/-- A join adds one id, unless it is there already. -/
theorem mem_peerIds_join (g : DcGroup) (peerId id : Bytes32) :
    id ∈ (g.join peerId).peerIds ↔ id ∈ g.peerIds ∨ id = peerId := by
  unfold join
  split
  next h =>
    obtain ⟨p, hp, heq⟩ := List.any_eq_true.mp h
    refine ⟨Or.inl, fun hid => hid.elim (fun hid => hid) fun hid => ?_⟩
    exact mem_peerIds.mpr ⟨p, hp, (of_decide_eq_true heq).trans hid.symm⟩
  next => simp [peerIds, Participant.new, eq_comm]

/-- A member that joins again is not listed twice. -/
theorem nodup_peerIds_join {g : DcGroup} (h : g.peerIds.Nodup) (peerId : Bytes32) :
    (g.join peerId).peerIds.Nodup := by
  unfold join
  split
  · exact h
  next hany =>
    rw [peerIds, List.map_append]
    refine h.append (List.nodup_singleton _) ?_
    rw [List.map_singleton, List.disjoint_singleton]
    intro hmem
    obtain ⟨p, hp, heq⟩ := List.mem_map.mp hmem
    exact hany (List.any_eq_true.mpr ⟨p, hp, decide_eq_true heq⟩)

/-- A member that leaves is gone, and nobody else is. -/
theorem mem_peerIds_leave (g : DcGroup) (peerId id : Bytes32) :
    id ∈ (g.leave peerId).peerIds ↔ id ∈ g.peerIds ∧ id ≠ peerId := by
  simp only [mem_peerIds, leave, List.mem_filter, decide_eq_true_eq]
  constructor
  · rintro ⟨p, ⟨hp, hne⟩, rfl⟩
    exact ⟨⟨p, hp, rfl⟩, hne⟩
  · rintro ⟨⟨p, hp, rfl⟩, hne⟩
    exact ⟨p, ⟨hp, hne⟩, rfl⟩

/-- Members that remain are listed as they were. -/
theorem nodup_peerIds_leave {g : DcGroup} (h : g.peerIds.Nodup) (peerId : Bytes32) :
    (g.leave peerId).peerIds.Nodup :=
  h.sublist (List.filter_sublist.map _)

/-! ## Rounds that everybody answers -/

/-- No member counts as malicious. -/
def Clean (g : DcGroup) : Prop := ∀ p ∈ g.participants, p.isMalicious = false

/-- A new member has full reputation and has missed nothing. -/
theorem Clean.join {g : DcGroup} (h : g.Clean) (peerId : Bytes32) : (g.join peerId).Clean := by
  unfold DcGroup.join
  split
  · exact h
  · intro p hp
    rcases List.mem_append.mp hp with hp | hp
    · exact h p hp
    · rw [List.mem_singleton.mp hp]
      show (decide (3 ≤ 0) || decide ((1 : ℚ) < 3 / 10)) = false
      norm_num

/-- Who leaves makes nobody malicious. -/
theorem Clean.leave {g : DcGroup} (h : g.Clean) (peerId : Bytes32) : (g.leave peerId).Clean :=
  fun p hp => h p (List.mem_of_mem_filter hp)

/-- A reward clears the missed rounds and raises the reputation. -/
theorem reward_not_malicious {p : Participant} (h : p.isMalicious = false) :
    p.reward.isMalicious = false := by
  simp only [Participant.isMalicious, Bool.or_eq_false_iff, decide_eq_false_iff_not, not_lt,
    not_le] at h ⊢
  have hreputation : 3 / 10 ≤ p.reputation + 1 / 20 := by linarith [h.2]
  exact ⟨Nat.zero_lt_succ 2, le_min hreputation (by norm_num)⟩

/-- The members that are not malicious make a clean group. -/
theorem clean_startRound (g : DcGroup) (roundId now : ℕ) : (g.startRound roundId now).1.Clean := by
  intro p hp
  have hfilter : p ∈ g.participants.filter (!·.isMalicious) := by
    unfold startRound at hp
    dsimp only at hp
    split at hp <;> exact hp
  simpa using (List.mem_filter.mp hfilter).2

/-- A clean group enters a round as it is. -/
theorem peerIds_startRound {g : DcGroup} (h : g.Clean) (roundId now : ℕ) :
    (g.startRound roundId now).1.peerIds = g.peerIds := by
  have hfilter : g.participants.filter (!·.isMalicious) = g.participants :=
    List.filter_eq_self.mpr fun p hp => by simp [h p hp]
  unfold startRound peerIds
  dsimp only
  rw [hfilter]
  split <;> rfl

/-- Reputations are written to the members that are there. -/
theorem peerIds_writeBack (ps : List Participant) (rp : Participant) :
    (writeBack ps rp).map Participant.peerId = ps.map Participant.peerId := by
  induction ps with
  | nil => rfl
  | cons p ps ih =>
    rw [writeBack]
    split
    · rfl
    · rw [List.map_cons, ih, List.map_cons]

/-- A member that is not malicious stays so under the reputation of one that is not. -/
theorem writeBack_not_malicious {ps : List Participant} {rp : Participant}
    (hps : ∀ p ∈ ps, p.isMalicious = false) (hrp : rp.isMalicious = false) :
    ∀ p ∈ writeBack ps rp, p.isMalicious = false := by
  induction ps with
  | nil => nofun
  | cons p ps ih =>
    obtain ⟨hp, hps⟩ := List.forall_mem_cons.mp hps
    rw [writeBack]
    split
    -- what is absorbed decides whether the member is malicious
    · exact List.forall_mem_cons.mpr ⟨hrp, hps⟩
    · exact List.forall_mem_cons.mpr ⟨hp, ih hps⟩

/-- Writing back the reputations of members that are not malicious. -/
theorem foldl_writeBack (rps ps : List Participant) :
    (rps.foldl writeBack ps).map Participant.peerId = ps.map Participant.peerId ∧
      ((∀ p ∈ ps, p.isMalicious = false) → (∀ rp ∈ rps, rp.isMalicious = false) →
        ∀ p ∈ rps.foldl writeBack ps, p.isMalicious = false) := by
  induction rps generalizing ps with
  | nil => exact ⟨rfl, fun h _ => h⟩
  | cons rp rps ih =>
    obtain ⟨hids, hclean⟩ := ih (writeBack ps rp)
    refine ⟨hids.trans (peerIds_writeBack ps rp), fun hps hrps => ?_⟩
    obtain ⟨hrp, hrps⟩ := List.forall_mem_cons.mp hrps
    exact hclean (writeBack_not_malicious hps hrp) hrps

/-- A round of a clean group that every member answers: nobody drops out, nobody is removed, and
the group stays clean. -/
theorem finishRoundWith_spec {g : DcGroup} (hclean : g.Clean) {round : DcRound}
    (hround : g.currentRound = some round) (hmembers : round.participants = g.participants)
    {responded : List Bytes32} (hresponded : ∀ id ∈ g.peerIds, id ∈ responded) :
    ∃ g', g.finishRoundWith responded = (g', [], []) ∧ g'.peerIds = g.peerIds ∧ g'.Clean := by
  -- everybody has answered, so there are only rewards
  have hanswer : ∀ p ∈ g.participants, p.peerId ∈ responded :=
    fun p hp => hresponded _ (mem_peerIds.mpr ⟨p, hp, rfl⟩)
  have hdropouts : g.participants.filter (·.peerId ∉ responded) = [] :=
    List.filter_eq_nil_iff.mpr fun p hp => by simp [hanswer p hp]
  have hrewarded : (g.participants.map fun p =>
      if p.peerId ∈ responded then p.reward else p.penalize) =
        g.participants.map Participant.reward :=
    List.map_congr_left fun p hp => if_pos (hanswer p hp)
  have hreward : ∀ rp ∈ g.participants.map Participant.reward, rp.isMalicious = false := by
    intro rp hrp
    obtain ⟨p, hp, rfl⟩ := List.mem_map.mp hrp
    exact reward_not_malicious (hclean p hp)
  -- a reward makes nobody malicious
  have hbad : (g.participants.map Participant.reward).filter (·.isMalicious) = [] :=
    List.filter_eq_nil_iff.mpr fun rp hrp => by simp [hreward rp hrp]
  have hgood : (g.participants.map Participant.reward).filter (!·.isMalicious) =
      g.participants.map Participant.reward :=
    List.filter_eq_self.mpr fun rp hrp => by simp [hreward rp hrp]
  obtain ⟨hids, hstays⟩ :=
    foldl_writeBack (g.participants.map Participant.reward) g.participants
  refine ⟨{ g with
      participants := (g.participants.map Participant.reward).foldl writeBack g.participants
      currentRound := none }, ?_, hids, hstays hclean hreward⟩
  simp only [finishRoundWith, hround, DcRound.markDropouts, DcRound.removeMalicious, hmembers,
    hdropouts, hrewarded, hbad, hgood]
  rfl

/-- A round does not change how many members the group asks for. -/
theorem minParticipants_finishRoundWith (g : DcGroup) (responded : List Bytes32) :
    (g.finishRoundWith responded).1.minParticipants = g.minParticipants := by
  have hleave : ∀ (ids : List Bytes32) (g : DcGroup),
      (ids.foldl leave g).minParticipants = g.minParticipants := by
    intro ids
    induction ids with
    | nil => exact fun _ => rfl
    | cons id ids ih => exact fun g => ih (g.leave id)
  unfold finishRoundWith
  split
  · rfl
  · exact hleave _ _

/-- What every group keeps: its members are distinct, and none is malicious. -/
structure Sound (g : DcGroup) : Prop where
  nodup : g.peerIds.Nodup
  clean : g.Clean

namespace Sound

/-- A new group has no members. -/
theorem new (groupId : Bytes32) (min maxDrop : ℕ) : (DcGroup.new groupId min maxDrop).Sound :=
  ⟨List.nodup_nil, nofun⟩

/-- A member joins with full reputation, and once. -/
theorem join {g : DcGroup} (h : g.Sound) (peerId : Bytes32) : (g.join peerId).Sound :=
  ⟨nodup_peerIds_join h.nodup peerId, h.clean.join peerId⟩

/-- A member that leaves takes nothing of the others along. -/
theorem leave {g : DcGroup} (h : g.Sound) (peerId : Bytes32) : (g.leave peerId).Sound :=
  ⟨nodup_peerIds_leave h.nodup peerId, h.clean.leave peerId⟩

/-- Several members join one after the other. -/
theorem foldl_join {g : DcGroup} (h : g.Sound) (ids : List Bytes32) :
    (ids.foldl DcGroup.join g).Sound := by
  induction ids generalizing g with
  | nil => exact h
  | cons id ids ih => exact ih (h.join id)

end Sound

/-- The members after several joins: those before, and those that have joined. -/
theorem mem_peerIds_foldl_join (g : DcGroup) (ids : List Bytes32) (id : Bytes32) :
    id ∈ (ids.foldl join g).peerIds ↔ id ∈ g.peerIds ∨ id ∈ ids := by
  induction ids generalizing g with
  | nil => simp
  | cons id' ids ih => rw [List.foldl_cons, ih, mem_peerIds_join, List.mem_cons, or_assoc]

end DcGroup

end ChronoShift
