import ChronoShift.DcNet.TrustLevels

/-!
# One trust scale

The trust level of a reputation is computed twice: `Reputation::trust_level` asks whether the peer
is banned, and `sync_reputation_to_trust` whether it is malicious. A peer is banned in the round in
which it turns malicious, if it does so by dropping out, but nobody looks at the drops of a peer
that answers.

The score bounds how often a peer can drop out without being banned: a drop costs at least `9/70`,
and an answer earns at most `1/20`. So more than half of ten rounds is out of reach.

* `Reputation.Earned`: what the score of a peer that is not banned says about its drops;
* `Reputation.Scaled.trustLevel_eq`: the two levels are one for such a peer, and for a banned one;
* `ReputationManager.one_trust_scale`: they are one for every peer after any rounds.
-/

namespace ChronoShift

open ToMathlib

namespace Reputation

/-- The trust level of a reputation. -/
def trustLevel (r : Reputation) : UInt8 :=
  if r.banned then 0
  else if 4 / 5 ≤ r.score then 2
  else if 1 / 2 ≤ r.score then 1
  else 0

/-- What the score of a peer that is not banned says about its drops. -/
structure Earned (r : Reputation) : Prop where
  /-- A lower score would have been a reason for a ban. -/
  floor_le : 3 / 10 ≤ r.score
  /-- Every drop in a row has scaled the score, which was at most one. -/
  score_le : r.score ≤ (7 / 10) ^ r.consecutiveDrops
  /-- What the drops have cost has been there at the start, or earned by answers. -/
  spent : r.score + 9 / 70 * r.roundsDropped ≤
    1 / 2 + 1 / 20 * ((r.roundsTotal : ℚ) - r.roundsDropped)

/-- The reputation has been banned, or it has earned its score. -/
def Scaled (r : Reputation) : Prop := r.banned = true ∨ r.Earned

/-- A new reputation has dropped nothing. -/
theorem earned_new (peerId : Bytes) (now : ℕ) : (new peerId now).Earned := by
  constructor <;> norm_num [new]

/-- What an answer adds is earned. -/
theorem Earned.reward {r : Reputation} (h : r.Earned) : r.reward.Earned := by
  have hfloor := h.floor_le
  have hspent := h.spent
  refine ⟨le_min (by linarith) (by norm_num), ?_, ?_⟩
  · exact (min_le_right _ _).trans_eq (pow_zero _).symm
  -- the cap at one can only take away from what an answer earns
  · have hgain : r.reward.score ≤ r.score + 1 / 20 := min_le_left _ _
    rw [Reputation.reward] at hgain ⊢
    push_cast
    linarith

/-- A penalty that is no reason for a ban has been paid for. -/
theorem Earned.penalize {r : Reputation} (h : r.Earned) (timingPct : UInt8)
    (hfloor : 3 / 10 ≤ (r.penalize timingPct).score) : (r.penalize timingPct).Earned := by
  have hspent := h.spent
  refine ⟨hfloor, ?_, ?_⟩
  · rw [Reputation.penalize, pow_succ]
    exact mul_le_mul_of_nonneg_right h.score_le (by norm_num)
  -- a score that is at least 3/10 after the cut was at least 3/7, so 9/70 of it have been cut off
  · rw [Reputation.penalize] at hfloor ⊢
    push_cast
    linarith

/-- Three drops in a row leave a score that is below every level. -/
theorem Earned.score_lt {r : Reputation} (h : r.Earned) (hdrops : 3 ≤ r.consecutiveDrops) :
    r.score < 1 / 2 :=
  calc r.score
      ≤ (7 / 10) ^ r.consecutiveDrops := h.score_le
    _ ≤ (7 / 10) ^ 3 := pow_le_pow_of_le_one (by norm_num) (by norm_num) hdrops
    _ < 1 / 2 := by norm_num

/-- The score does not pay for more drops than answers in ten rounds. -/
theorem Earned.dropRate_le {r : Reputation} (h : r.Earned) (htotal : 10 ≤ r.roundsTotal) :
    (r.roundsDropped : ℚ) / r.roundsTotal ≤ 1 / 2 := by
  have htotal' : (10 : ℚ) ≤ r.roundsTotal := by exact_mod_cast htotal
  have hfloor := h.floor_le
  have hspent := h.spent
  rw [div_le_iff₀ (by linarith)]
  linarith

/-- Only drops in a row make a peer malicious that has earned its score. -/
theorem Earned.score_lt_of_isMalicious {r : Reputation} (h : r.Earned) (hbanned : r.banned = false)
    (hmalicious : r.isMalicious = true) : r.score < 1 / 2 := by
  simp only [isMalicious, hbanned, Bool.false_or, Bool.or_eq_true, Bool.and_eq_true,
    decide_eq_true_eq] at hmalicious
  rcases hmalicious with (⟨hdrops, -⟩ | ⟨htotal, hrate⟩) | hlow
  · exact h.score_lt hdrops
  -- the other two reasons do not occur
  · exact absurd (h.dropRate_le htotal) (not_le.mpr hrate)
  · exact absurd h.floor_le (not_le.mpr hlow)

/-- The two levels are one. -/
theorem Scaled.trustLevel_eq {r : Reputation} (h : r.Scaled) : r.trustLevel = r.syncLevel := by
  cases hbanned : r.banned with
  | true =>
    rw [trustLevel, syncLevel, isMalicious, hbanned]
    rfl
  | false =>
    have hearned : r.Earned := h.resolve_left (by rw [hbanned]; exact Bool.false_ne_true)
    rw [trustLevel, syncLevel, hbanned, if_neg Bool.false_ne_true]
    by_cases hmalicious : r.isMalicious = true
    -- not banned yet: the score alone leads to the level of a banned peer
    · have hlow := hearned.score_lt_of_isMalicious hbanned hmalicious
      have hfull : ¬ 4 / 5 ≤ r.score := not_le.mpr (by linarith)
      rw [if_pos hmalicious, if_neg hfull, if_neg (not_le.mpr hlow)]
    · rw [if_neg hmalicious]

/-- A reward keeps the scale. -/
theorem Scaled.reward {r : Reputation} (h : r.Scaled) : r.reward.Scaled :=
  h.imp id Earned.reward

/-- A peer that drops out is banned if it is malicious then. -/
theorem Scaled.penalize {r : Reputation} (h : r.Scaled) (timingPct : UInt8)
    (hmalicious : (r.penalize timingPct).isMalicious = false) :
    (r.penalize timingPct).Scaled := by
  refine h.imp id fun hearned => hearned.penalize timingPct ?_
  simp only [isMalicious, Bool.or_eq_false_iff, decide_eq_false_iff_not, not_lt] at hmalicious
  exact hmalicious.2

end Reputation

/-- The arguments of a call of `process_round`. -/
structure ProcessCall where
  now : ℕ
  responded : List Bytes
  all : List Bytes
  roundPct : UInt8

namespace ReputationManager

/-- The reputations after a number of rounds. -/
def afterRounds (rounds : List ProcessCall) : ReputationManager :=
  rounds.foldl (fun m c => (m.processRound c.now c.responded c.roundPct c.all).1) new

/-- All reputations have been banned or have earned their scores. -/
def Scaled (m : ReputationManager) : Prop :=
  ∀ pid r, m.peers.lookup pid = some r → r.Scaled

variable {m : ReputationManager} {now : ℕ}

/-- One reputation on the scale is set. -/
theorem Scaled.insert (h : m.Scaled) {r : Reputation} (hr : r.Scaled) (pid : Bytes) :
    Scaled ⟨m.peers.insert pid r⟩ := by
  intro pid' r' hr'
  dsimp only at hr'
  rw [HashMap.lookup_insert_ite] at hr'
  split at hr'
  · exact Option.some.inj hr' ▸ hr
  · exact h pid' r' hr'

/-- A peer that is not known has earned the score of a new one. -/
theorem Scaled.get (h : m.Scaled) (now : ℕ) (pid : Bytes) : (m.get now pid).Scaled := by
  rw [ReputationManager.get]
  cases hr : m.peers.lookup pid with
  | some r => exact h pid r hr
  | none => exact Or.inr (Reputation.earned_new pid now)

/-- A new reputation is on the scale. -/
theorem Scaled.getOrCreate (h : m.Scaled) (now : ℕ) (pid : Bytes) :
    (m.getOrCreate now pid).1.Scaled := by
  rw [ReputationManager.getOrCreate]
  split
  · exact h
  · exact h.insert (Or.inr (Reputation.earned_new pid now)) pid

/-- One peer of a round is rewarded or penalized. -/
theorem Scaled.processOne (h : m.Scaled) (now : ℕ) (responded : List Bytes) (roundPct : UInt8)
    (pid : Bytes) : (m.processOne now responded roundPct pid).1.Scaled := by
  have hr := h.get now pid
  have hm := h.getOrCreate now pid
  rw [← getOrCreate_snd] at hr
  rw [ReputationManager.processOne]
  dsimp only
  split
  · exact hm.insert hr.reward pid
  · split
    next => exact hm.insert (Or.inl rfl) pid
    next hmalicious => exact hm.insert (hr.penalize roundPct (Bool.not_eq_true _ ▸ hmalicious)) pid

/-- All peers of a round are rewarded or penalized. -/
theorem Scaled.processRound (h : m.Scaled) (now : ℕ) (responded : List Bytes) (roundPct : UInt8)
    (all : List Bytes) : (m.processRound now responded roundPct all).1.Scaled := by
  induction all generalizing m with
  | nil => exact h
  | cons pid all ih => exact ih (h.processOne now responded roundPct pid)

/-- The invariant holds after any rounds. -/
theorem scaled_afterRounds (rounds : List ProcessCall) : (afterRounds rounds).Scaled := by
  have hrun : ∀ m : ReputationManager, m.Scaled → Scaled (rounds.foldl
      (fun m c => (m.processRound c.now c.responded c.roundPct c.all).1) m) := by
    induction rounds with
    | nil => exact fun m hm => hm
    | cons c rounds ih =>
      exact fun m hm => ih _ (hm.processRound c.now c.responded c.roundPct c.all)
  refine hrun new fun pid r hr => ?_
  cases hr

/-- After any rounds, `sync_reputation_to_trust` gives every friend the trust level of its
reputation. -/
theorem one_trust_scale (rounds : List ProcessCall) (env : OpEnv) {b : F2fDcNetBridge}
    (hfriends : ∀ uid f, b.friends.lookup uid = some f → f.uid = uid)
    (hrounds : b.reputation = afterRounds rounds) {uid : String} {f : F2fFriend}
    (hf : b.friends.lookup uid = some f) :
    (b.syncReputationToTrust env).1.getTrust uid =
      ((afterRounds rounds).get env.now f.peerId.toList).trustLevel := by
  obtain ⟨friends, reputation, heq, hlookup⟩ :=
    @F2fDcNetBridge.syncReputationToTrust_spec env b hfriends
  have hf' : friends.lookup uid = some (F2fDcNetBridge.levelled b.reputation env.now f) := by
    rw [hlookup, hf, Option.map_some]
  rw [heq, F2fDcNetBridge.getTrust_of_lookup hf', hrounds]
  exact ((scaled_afterRounds rounds).get env.now f.peerId.toList).trustLevel_eq.symm

/-- `carol` drops out of a round, late. -/
def carolDrops : List ProcessCall :=
  [⟨0, [], [F2fDcNetBridge.carol.peerId.toList], 90⟩]

/-- She is given the level of what is left of her score. -/
theorem one_trust_scale_carol :
    (F2fDcNetBridge.syncReputationToTrust .still
        { F2fDcNetBridge.aliceBesideCarol with reputation := afterRounds carolDrops }).1.getTrust
          "carol" =
      ((afterRounds carolDrops).get 0 F2fDcNetBridge.carol.peerId.toList).trustLevel := by
  have hreach : F2fDcNetBridge.Reachable F2fDcNetBridge.namePrimitives (.ofTable [] [])
      (fun _ _ => True) (fun _ => True) F2fDcNetBridge.aliceBesideCarol :=
    F2fDcNetBridge.reachable_doAll (.start "alice") _
  exact @one_trust_scale carolDrops .still
    { F2fDcNetBridge.aliceBesideCarol with reputation := afterRounds carolDrops }
    (fun uid f hf => (hreach.sound.friends uid f hf).1) rfl "carol" F2fDcNetBridge.carol
    F2fDcNetBridge.lookup_carol

end ReputationManager

end ChronoShift
