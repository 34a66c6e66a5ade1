import ChronoShift.DcNet.EdgeKeys
import ChronoShift.RoundEngine

/-!
# The lifetime of a node

A node lives through any number of process runs. `AppState::new_with_port` restores the bridge, and
with it the edge keys, from the data directory; the round engine starts anew, with its counter at
zero. The masks of a share are derived from the edge keys and the round id, so a share of a later
process run can have the masks of an earlier one.

* `Lifetime.Inv`, `Lifetime.Inv.call`: what holds while rounds are not repeated;
* `Lifetime.masks_not_reused`: no masks are reused in a lifetime in which no round is shared again
  under an edge key that an earlier process run has shared it under.
-/

namespace ChronoShift

open ToMathlib

/-- The parts of the application state that rounds depend on. -/
structure AppState where
  bridge : Bridge
  roundEngine : RoundEngine

namespace AppState

/-- Start a process on a data directory. `freshSnap` and `freshLog` are the random edge keys drawn
while the bridge is restored. -/
def newWithPort (prim : Primitives) (serde : Serde) (freshSnap freshLog : ℕ → Bytes32)
    (uid : String) (dir : DataDir) (now : ℕ) : AppState :=
  -- the bridge comes back from disk, the round counter does not
  ⟨Bridge.restore prim serde freshSnap freshLog uid (WalStore.openAt dir 100 now),
    RoundEngine.new uid⟩

/-- What a process run is given, step by step. -/
inductive Input where
  /-- An operation on the social state. -/
  | bridge (input : Bridge.Input)
  | queueMessage (text : String)
  /-- A call of the round engine, in the context of its caller; the edge keys are the bridge's. -/
  | round (env : CallEnv) (ctx : RoundContext) (call : RoundEngine.Call)

/-- The context of a call of the round engine. -/
def context (s : AppState) (ctx : RoundContext) : RoundContext :=
  { ctx with edgeKeys := s.bridge.edgeKeyMap }

/-- Carry out one step; a share that is computed is returned. -/
def step (prim : Primitives) (serde : Serde) (s : AppState) : Input → AppState × Option ShareUse
  | .bridge input => ({ s with bridge := s.bridge.apply prim serde input }, none)
  | .queueMessage text => ({ s with roundEngine := s.roundEngine.queueMessage text }, none)
  | .round env ctx call =>
    let result := s.roundEngine.call prim env (s.context ctx) call
    ({ s with roundEngine := result.engine }, result.computed)

end AppState

/-- A node in its current process run, and the shares it has computed. -/
structure Lifetime where
  app : AppState
  /-- The shares of earlier process runs. -/
  past : List ShareUse
  /-- The shares of the current process run. -/
  current : List ShareUse

namespace Lifetime

/-- Carry out one step of the current process run. -/
def step (prim : Primitives) (serde : Serde) (s : Lifetime) (input : AppState.Input) : Lifetime :=
  let (app, computed) := s.app.step prim serde input
  { s with app := app, current := s.current ++ computed.toList }

/-- Start the next process run. -/
def restart (s : Lifetime) (app : AppState) : Lifetime := ⟨app, s.past ++ s.current, []⟩

/-- The lifetimes of a node in which every step meets `ok`. A process run may end at any time, also
in the middle of an append or of a checkpoint, so the next one starts on any data directory. -/
inductive Reachable (prim : Primitives) (serde : Serde)
    (ok : Lifetime → AppState.Input → Prop) : Lifetime → Prop
  | start (freshSnap freshLog : ℕ → Bytes32) (uid : String) (dir : DataDir) (now : ℕ) :
      Reachable prim serde ok
        ⟨AppState.newWithPort prim serde freshSnap freshLog uid dir now, [], []⟩
  | step {s : Lifetime} (input : AppState.Input) :
      Reachable prim serde ok s → ok s input → Reachable prim serde ok (s.step prim serde input)
  | restart {s : Lifetime} (freshSnap freshLog : ℕ → Bytes32) (uid : String) (dir : DataDir)
      (now : ℕ) : Reachable prim serde ok s → Reachable prim serde ok
        (s.restart (AppState.newWithPort prim serde freshSnap freshLog uid dir now))

/-- Shares whose masks are derived from a common edge key and round id are the same share. -/
def MasksNotReused (s : Lifetime) : Prop :=
  ∀ use ∈ s.past ++ s.current, ∀ use' ∈ s.past ++ s.current, use.roundId = use'.roundId →
    (∃ key ∈ use.edgeKeys, key ∈ use'.edgeKeys) → use.share = use'.share

/-- The round that the step is about, if it is the next one, has not been shared by an earlier
process run under the edge key of one of its other participants. -/
def UnsharedRound (s : Lifetime) : AppState.Input → Prop
  | .round _ _ call =>
    ∀ participants ∈ s.app.roundEngine.nextParticipants call,
      ∀ key ∈ maskKeys s.app.bridge.edgeKeyMap s.app.roundEngine.myUid participants,
        ∀ use ∈ s.past, use.roundId = s.app.roundEngine.tracker.currentRoundId + 1 →
          key ∉ use.edgeKeys
  | _ => True

instance (s : Lifetime) : DecidablePred s.UnsharedRound
  | .bridge _ | .queueMessage _ => inferInstanceAs (Decidable True)
  | .round _ _ call =>
    inferInstanceAs (Decidable (∀ ps, ps ∈ s.app.roundEngine.nextParticipants call → _))

/-- `ok` holds at every step of a list. -/
def Along (prim : Primitives) (serde : Serde) (ok : Lifetime → AppState.Input → Prop) :
    Lifetime → List AppState.Input → Prop
  | _, [] => True
  | s, input :: inputs => ok s input ∧ Along prim serde ok (s.step prim serde input) inputs

instance decidableAlong (prim : Primitives) (serde : Serde)
    (ok : Lifetime → AppState.Input → Prop) [∀ s, DecidablePred (ok s)] :
    (s : Lifetime) → (inputs : List AppState.Input) → Decidable (Along prim serde ok s inputs)
  | _, [] => inferInstanceAs (Decidable True)
  | s, input :: inputs =>
    have := decidableAlong prim serde ok (s.step prim serde input) inputs
    inferInstanceAs (Decidable (_ ∧ _))

/-- A list of steps that meet the condition is a run. -/
theorem Reachable.foldl {prim : Primitives} {serde : Serde}
    {ok : Lifetime → AppState.Input → Prop} {s : Lifetime} (h : s.Reachable prim serde ok)
    {inputs : List AppState.Input} (hok : Along prim serde ok s inputs) :
    (inputs.foldl (Lifetime.step prim serde) s).Reachable prim serde ok := by
  induction inputs generalizing s with
  | nil => exact h
  | cons input inputs ih => exact ih (.step input h hok.1) hok.2

/-- Two shares have no masks in common: their rounds differ, or they have no edge key in common. -/
def Apart (use use' : ShareUse) : Prop :=
  use.roundId = use'.roundId → ∀ key ∈ use.edgeKeys, key ∉ use'.edgeKeys

instance : Std.Symm Apart := ⟨fun _ _ h heq key hkey' hkey => h heq.symm key hkey hkey'⟩

/-- The shares of a lifetime have no masks in common. -/
structure Inv (s : Lifetime) : Prop where
  /-- The rounds of the current process run have been counted. -/
  counted : ∀ use ∈ s.current, use.roundId ≤ s.app.roundEngine.tracker.currentRoundId
  apart : (s.past ++ s.current).Pairwise Apart

variable {prim : Primitives} {serde : Serde} {s : Lifetime}

/-- No share has been computed at first. -/
theorem inv_start (app : AppState) : Inv ⟨app, [], []⟩ := ⟨by simp, by simp⟩

/-- A restart keeps the invariant, whatever is restored. -/
theorem Inv.restart (h : s.Inv) (app : AppState) : (s.restart app).Inv :=
  ⟨by simp [Lifetime.restart], by simpa [Lifetime.restart] using h.apart⟩

/-- A step without a share keeps the invariant, unless it moves the counter back. -/
theorem Inv.quiet (h : s.Inv) {app : AppState}
    (hcounter : s.app.roundEngine.tracker.currentRoundId ≤
      app.roundEngine.tracker.currentRoundId) :
    Inv { s with app := app } :=
  ⟨fun use huse => (h.counted use huse).trans hcounter, h.apart⟩

/-- A share of the next round keeps the invariant when no earlier process run has shared the round
under one of its keys. -/
theorem Inv.share (h : s.Inv) {app : AppState} {use : ShareUse}
    (hround : use.roundId = s.app.roundEngine.tracker.currentRoundId + 1)
    (hcounter : app.roundEngine.tracker.currentRoundId =
      s.app.roundEngine.tracker.currentRoundId + 1)
    (hpast : ∀ key ∈ use.edgeKeys, ∀ old ∈ s.past, old.roundId = use.roundId →
      key ∉ old.edgeKeys) :
    Inv { s with app := app, current := s.current ++ [use] } := by
  constructor
  · intro use' huse'
    rcases List.mem_append.mp huse' with hold | hnew
    · have hle := h.counted use' hold
      show use'.roundId ≤ app.roundEngine.tracker.currentRoundId
      omega
    · rw [List.mem_singleton.mp hnew]
      exact (hround.trans hcounter.symm).le
  · rw [← List.append_assoc, List.pairwise_append]
    refine ⟨h.apart, List.pairwise_singleton _ _, fun old hold new hnew heq key hkey hnewkey => ?_⟩
    obtain rfl := List.mem_singleton.mp hnew
    rcases List.mem_append.mp hold with hold | hold
    · exact hpast key hnewkey old hold heq hkey
    -- a share of this process run has a round that the counter has passed
    · have hle := h.counted old hold
      omega

/-- A step that shares no round again keeps the invariant. -/
theorem Inv.step (h : s.Inv) {input : AppState.Input} (hok : s.UnsharedRound input) :
    (s.step prim serde input).Inv := by
  cases input with
  | bridge input =>
    have hquiet := @Inv.quiet s h (s.app.step prim serde (.bridge input)).1 le_rfl
    simpa [Lifetime.step, AppState.step] using hquiet
  | queueMessage text =>
    have hquiet := @Inv.quiet s h (s.app.step prim serde (.queueMessage text)).1 le_rfl
    simpa [Lifetime.step, AppState.step] using hquiet
  | round env ctx call =>
    have hcounted := @RoundEngine.call_counted prim env s.app.roundEngine (s.app.context ctx) call
    rcases hcounted with ⟨hnone, hcounter⟩ | ⟨use, hsome, hnext, hcounter⟩
    · simp only [Lifetime.step, AppState.step, hnone, Option.toList_none, List.append_nil]
      exact h.quiet hcounter
    -- the share is of the next round, which no earlier process run has shared under these keys
    · obtain ⟨participants, hparticipants, hround, hkeys⟩ := hnext
      simp only [Lifetime.step, AppState.step, hsome, Option.toList_some]
      refine h.share hround hcounter fun key hkey old hold heq => ?_
      rw [hkeys] at hkey
      exact hok participants hparticipants key hkey old hold (heq.trans hround)

/-- In every lifetime in which no step shares a round again under an edge key that an earlier
process run has shared it under, no masks are reused. -/
theorem masks_not_reused (prim : Primitives) (serde : Serde) (s : Lifetime)
    (hreach : s.Reachable prim serde UnsharedRound) : s.MasksNotReused := by
  have hinv : s.Inv := by
    induction hreach with
    | start => exact inv_start _
    | step input _ hok ih => exact ih.step hok
    | restart _ _ _ _ _ _ ih => exact ih.restart _
  intro use huse use' huse' hround hkey
  by_contra hne
  obtain ⟨key, hkey, hkey'⟩ := hkey
  have hapart : Apart use use' := hinv.apart.forall huse huse' fun heq => hne (heq ▸ rfl)
  exact hapart hround key hkey hkey'

/-- `bob` announces a round to `me`. -/
def bobRound (roundId : ℕ) : AppState.Input :=
  .round ⟨.stored, .stored, 0, fun _ => 0⟩ ⟨"me", .replicate 32 1, ∅, ∅⟩
    (.handleIncoming (.dcRoundStart "#x" roundId "bob" ["bob", "me"] 30 64))

/-- Start `me` on a data directory. -/
def bootMe (dir : DataDir) : AppState :=
  AppState.newWithPort .const Bridge.keySerde (fun _ => .replicate 32 0) (fun _ => .replicate 32 0)
    "me" dir 0

/-- The key of `bob` is set, and the text `a` is sent in round 1. -/
def firstInputs : List AppState.Input :=
  [.bridge ⟨.addFriend "bob" "b:1" 1, .replicate 32 7, fun _ => ⟨1, 1⟩⟩,
    .bridge ⟨.setEdgeKey "bob" (.replicate 32 9), .replicate 32 7, fun _ => ⟨2, 2⟩⟩,
    .queueMessage "a", bobRound 1]

/-- The first process run of `me`, on an empty data directory. -/
def firstRun : Lifetime :=
  firstInputs.foldl (step .const Bridge.keySerde) ⟨bootMe {}, [], []⟩

/-- The data directory after a crash between two calls. -/
def crashDir (s : Lifetime) : DataDir := ((s.app.bridge.wal.map WalStore.dir).getD {})

/-- The second process run of `me`, after a crash. -/
def secondRun (inputs : List AppState.Input) : Lifetime :=
  inputs.foldl (step .const Bridge.keySerde) (firstRun.restart (bootMe firstRun.crashDir))

/-- The result of round 1 is announced to `me`. -/
def resultOfRound : AppState.Input :=
  .round ⟨.stored, .stored, 0, fun _ => 0⟩ ⟨"me", .replicate 32 1, ∅, ∅⟩
    (.handleIncoming (.dcRoundResult "#x" 1 ((padMessage .const (asBytes "a") 64).getD []) []))

/-- The two process runs are a lifetime, if their steps meet the condition. -/
theorem reachable_secondRun {ok : Lifetime → AppState.Input → Prop} {inputs : List AppState.Input}
    (hfirst : Along .const Bridge.keySerde ok ⟨bootMe {}, [], []⟩ firstInputs)
    (hsecond : Along .const Bridge.keySerde ok (firstRun.restart (bootMe firstRun.crashDir))
      inputs) :
    (secondRun inputs).Reachable .const Bridge.keySerde ok := by
  have hrun : firstRun.Reachable .const Bridge.keySerde ok :=
    Reachable.foldl (.start _ _ "me" {} 0) hfirst
  exact Reachable.foldl (.restart _ _ "me" firstRun.crashDir 0 hrun) hsecond

/-- The second process run learns that round 1 is over before it takes part in round 2. -/
theorem masks_not_reused_later :
    (secondRun [resultOfRound, .queueMessage "b", bobRound 2]).MasksNotReused :=
  masks_not_reused .const Bridge.keySerde _
    (reachable_secondRun (by decide +kernel) (by decide +kernel))

/-- Both process runs take part in a round 1 of `bob`, with different texts. -/
theorem masks_reused :
    ¬ ∀ (prim : Primitives) (serde : Serde) (s : Lifetime),
      s.Reachable prim serde (fun _ _ => True) → s.MasksNotReused := by
  intro hclaim
  have hreach : (secondRun [.queueMessage "b", bobRound 1]).Reachable .const Bridge.keySerde
      (fun _ _ => True) := reachable_secondRun (by decide +kernel) (by decide +kernel)
  exact absurd (hclaim _ _ _ hreach) (by unfold MasksNotReused; decide +kernel)

end Lifetime

end ChronoShift
