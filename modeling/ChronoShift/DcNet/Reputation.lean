import ChronoShift.Basic
import Mathlib.Algebra.Order.Ring.Rat

/-!
# Reputation

The scores that peers earn over DC-Net rounds (`dcnet/reputation.rs`). Scores are rational numbers.
A peer that is not known yet counts as a new one.

* `ReputationManager.get`: the reputation of a peer, known or new;
* `ReputationManager.processRound_of_responded`: a round that everybody answers bans nobody, and
  rewards those who take part in it.
-/

namespace ChronoShift

open ToMathlib

/-- The reputation of a peer. -/
structure Reputation where
  peerId : Bytes
  score : ℚ
  roundsTotal : ℕ
  roundsDropped : ℕ
  consecutiveDrops : ℕ
  /-- How far the rounds were when the peer dropped out, in percent. -/
  dropTimingPct : List UInt8
  firstSeen : ℕ
  banned : Bool

namespace Reputation

/-- A new peer, with a score in the middle. -/
def new (peerId : Bytes) (now : ℕ) : Reputation := ⟨peerId, 1 / 2, 0, 0, 0, [], now, false⟩

/-- The peer answered. -/
def reward (r : Reputation) : Reputation :=
  { r with
    roundsTotal := r.roundsTotal + 1
    consecutiveDrops := 0
    score := min (r.score + 1 / 20) 1 }

/-- The peer did not answer. -/
def penalize (r : Reputation) (timingPct : UInt8) : Reputation :=
  { r with
    roundsTotal := r.roundsTotal + 1
    roundsDropped := r.roundsDropped + 1
    consecutiveDrops := r.consecutiveDrops + 1
    dropTimingPct := r.dropTimingPct ++ [timingPct]
    score := r.score * (7 / 10) }

/-- Banned, late drops in a row, more than half of the rounds dropped, or a low score. -/
def isMalicious (r : Reputation) : Bool :=
  r.banned ||
    (3 ≤ r.consecutiveDrops && 2 ≤ (r.dropTimingPct.reverse.take 3).countP (80 < ·)) ||
    (10 ≤ r.roundsTotal && (1 / 2 : ℚ) < r.roundsDropped / r.roundsTotal) ||
    r.score < 3 / 10

/-- Ban the peer. -/
def ban (r : Reputation) : Reputation := { r with banned := true, score := 0 }

/-- The trust level that a reputation gives a friend, as `sync_reputation_to_trust` reads it. -/
def syncLevel (r : Reputation) : UInt8 :=
  if r.isMalicious then 0
  else if 4 / 5 ≤ r.score then 2
  else if 1 / 2 ≤ r.score then 1
  else 0

/-- A reputation never makes a level above 2. -/
theorem syncLevel_le (r : Reputation) : r.syncLevel ≤ 2 := by
  unfold syncLevel
  split_ifs <;> decide

end Reputation

/-- The reputations of all known peers. -/
structure ReputationManager where
  peers : HashMap Bytes Reputation

namespace ReputationManager

/-- No peer is known. -/
def new : ReputationManager := ⟨∅⟩

/-- The reputation of a peer, which is created if the peer is not known. -/
def getOrCreate (m : ReputationManager) (now : ℕ) (peerId : Bytes) :
    ReputationManager × Reputation :=
  match m.peers.lookup peerId with
  | some r => (m, r)
  | none =>
    let r := Reputation.new peerId now
    (⟨m.peers.insert peerId r⟩, r)

/-- Process a round for one peer. A peer that turns malicious is banned and returned. -/
def processOne (m : ReputationManager) (now : ℕ) (responded : List Bytes) (roundPct : UInt8)
    (pid : Bytes) : ReputationManager × Option Bytes :=
  let (m, r) := m.getOrCreate now pid
  if pid ∈ responded then (⟨m.peers.insert pid r.reward⟩, none)
  else
    let r := r.penalize roundPct
    if r.isMalicious then (⟨m.peers.insert pid r.ban⟩, some pid)
    else (⟨m.peers.insert pid r⟩, none)

/-- Process a round. The peers that turn malicious are returned. -/
def processRound (m : ReputationManager) (now : ℕ) (responded : List Bytes) (roundPct : UInt8) :
    List Bytes → ReputationManager × List Bytes
  | [] => (m, [])
  | pid :: all =>
    let (m, bad) := m.processOne now responded roundPct pid
    let (m, malicious) := m.processRound now responded roundPct all
    (m, bad.toList ++ malicious)

/-- The reputation of a peer, known or new. -/
def get (m : ReputationManager) (now : ℕ) (peerId : Bytes) : Reputation :=
  (m.peers.lookup peerId).getD (Reputation.new peerId now)

variable {m : ReputationManager} {now : ℕ}

/-- What is created is what would have been read. -/
theorem getOrCreate_snd (peerId : Bytes) : (m.getOrCreate now peerId).2 = m.get now peerId := by
  unfold getOrCreate get
  cases m.peers.lookup peerId <;> rfl

/-- A created reputation is the one of a new peer. -/
theorem get_getOrCreate (peerId pid : Bytes) :
    (m.getOrCreate now peerId).1.get now pid = m.get now pid := by
  unfold getOrCreate get
  cases h : m.peers.lookup peerId with
  | some r => rfl
  | none =>
    dsimp only
    rw [HashMap.lookup_insert_ite]
    split
    next heq => rw [heq, h]; rfl
    next => rfl

/-- The reputation of a peer that is set, and those of the others. -/
theorem get_insert (m : ReputationManager) (peerId pid : Bytes) (r : Reputation) :
    get ⟨m.peers.insert peerId r⟩ now pid = if pid = peerId then r else m.get now pid := by
  unfold get
  rw [HashMap.lookup_insert_ite]
  split <;> rfl

/-- A round that everybody answers. -/
theorem processRound_of_responded {responded : List Bytes} {roundPct : UInt8} {all : List Bytes}
    (hall : ∀ pid ∈ all, pid ∈ responded) (hnodup : all.Nodup) :
    (m.processRound now responded roundPct all).2 = [] ∧
      ∀ pid, (m.processRound now responded roundPct all).1.get now pid =
        if pid ∈ all then (m.get now pid).reward else m.get now pid := by
  induction all generalizing m with
  | nil => exact ⟨rfl, fun _ => rfl⟩
  | cons pid all ih =>
    obtain ⟨hpid, hall⟩ := List.forall_mem_cons.mp hall
    obtain ⟨hnotin, hnodup⟩ := List.nodup_cons.mp hnodup
    have hone : m.processOne now responded roundPct pid =
        (⟨(m.getOrCreate now pid).1.peers.insert pid (m.get now pid).reward⟩, none) := by
      rw [processOne, ← getOrCreate_snd]
      exact if_pos hpid
    obtain ⟨hbad, hget⟩ := @ih ⟨(m.getOrCreate now pid).1.peers.insert pid (m.get now pid).reward⟩
      hall hnodup
    simp only [processRound, hone]
    refine ⟨hbad, fun pid' => ?_⟩
    rw [hget, get_insert, get_getOrCreate]
    -- a peer is listed once, so it is rewarded once
    by_cases heq : pid' = pid
    · subst heq
      rw [if_neg hnotin, if_pos rfl, if_pos List.mem_cons_self]
    · rw [if_neg heq]
      simp only [List.mem_cons, heq, false_or]

end ReputationManager

end ChronoShift
