import ChronoShift.EngineRuns

/-!
# Events of the round engine

An engine tells the user of a text in two ways: a leader when a share completes its round, and
everybody when a result is announced. The share handler removes the collector of the round, so it
tells of a round once. The result handler looks at nothing but the checksum of the frame: neither at
the signature, nor at the number of the round, nor at what it has announced before.

* `RoundEngine.result_authenticated_iff`: results are authenticated by their checksum only;
* `RoundEngine.one_event_per_round`: one event per round, if results are announced once and for
  rounds that the engine has been invited to.
-/

namespace ChronoShift

open ToMathlib

/-- The channel and the round that an event is about. -/
def RoundEvent.key : RoundEvent → String × ℕ
  | .messageReceived channel _ roundId => (channel, roundId)
  | .messageExtracted channel _ roundId => (channel, roundId)

namespace RoundEngine

variable {prim : Primitives} {env : CallEnv} {e : RoundEngine} {ctx : RoundContext}

/-! ## Signatures of results -/

/-- The signature of a result verifies under the key on record for `leader`; `data` is what it
covers. -/
def ResultSigned (prim : Primitives) (ctx : RoundContext) (data : String → ℕ → Bytes → Bytes)
    (leader channel : String) (roundId : ℕ) (extractedMessage leaderSignature : Bytes) : Prop :=
  ∃ vk, (ctx.knownKeys.lookup leader).bind (parseVerifyingKey prim) = some vk ∧
    prim.verify vk (data channel roundId extractedMessage) leaderSignature = true

/-- A message has an effect that others can cause with a result: an event, or a new counter. -/
def Acts (prim : Primitives) (env : CallEnv) (e : RoundEngine) (ctx : RoundContext)
    (msg : PeerMessage) : Prop :=
  (e.handleIncoming prim env ctx msg).event ≠ none ∨
    (e.handleIncoming prim env ctx msg).engine.tracker ≠ e.tracker

/-- A result acts if and only if its frame passes the checksum. -/
theorem acts_result_iff (channel : String) (roundId : ℕ)
    (extractedMessage leaderSignature : Bytes) :
    e.Acts prim env ctx (.dcRoundResult channel roundId extractedMessage leaderSignature) ↔
      unpadMessage prim extractedMessage ≠ none := by
  rw [Acts, handleIncoming]
  cases hframe : unpadMessage prim extractedMessage with
  | none =>
    rw [handleRoundResult_of_none hframe]
    simp
  | some bytes =>
    rw [handleRoundResult_of_some hframe]
    simp

/-- A result acts only with the signature of its leader if and only if its frame fails the checksum
or it happens to carry that signature, whatever the signature is to cover. -/
theorem result_authenticated_iff (prim : Primitives) (env : CallEnv) (e : RoundEngine)
    (ctx : RoundContext) (data : String → ℕ → Bytes → Bytes) (leader channel : String)
    (roundId : ℕ) (extractedMessage leaderSignature : Bytes) :
    (e.Acts prim env ctx (.dcRoundResult channel roundId extractedMessage leaderSignature) →
        ResultSigned prim ctx data leader channel roundId extractedMessage leaderSignature) ↔
      unpadMessage prim extractedMessage = none ∨
        ResultSigned prim ctx data leader channel roundId extractedMessage leaderSignature := by
  rw [acts_result_iff, Decidable.imp_iff_not_or, not_ne_iff]

/-- Primitives under which an empty signature never verifies. -/
def strictPrimitives : Primitives :=
  { Primitives.const with sign := fun _ _ => [1], verify := fun _ _ sig => sig = [1] }

/-- `alice`, whose key is on record, leads round 1 of `bob`. -/
def bobInRound : RoundEngine := ⟨⟨1, []⟩, ∅, "bob", some "alice"⟩

def bobContext : RoundContext :=
  ⟨"bob", .replicate 32 0, ∅, .singleton "alice" (hexEncode (List.replicate 32 7))⟩

/-- A frame with the text `hi`. -/
def hiFrame : Bytes := (padMessage strictPrimitives (asBytes "hi") 64).getD []

theorem unpadMessage_hiFrame : unpadMessage strictPrimitives hiFrame = some (asBytes "hi") := by
  decide +kernel

/-- Without any signature a result injects a text and moves the counter, whatever data the signature
is to cover. -/
theorem result_unauthenticated :
    (bobInRound.handleIncoming strictPrimitives .still bobContext
        (.dcRoundResult "#g" 2 hiFrame [])).event = some (.messageReceived "#g" "hi" 2) ∧
      (bobInRound.handleIncoming strictPrimitives .still bobContext
        (.dcRoundResult "#g" 2 hiFrame [])).engine.tracker.currentRoundId = 2 ∧
      ¬ ∃ data : String → ℕ → Bytes → Bytes,
        bobInRound.Acts strictPrimitives .still bobContext (.dcRoundResult "#g" 2 hiFrame []) →
          ResultSigned strictPrimitives bobContext data "alice" "#g" 2 hiFrame [] := by
  have hresult := @handleRoundResult_of_some strictPrimitives bobInRound _ _ unpadMessage_hiFrame
    "#g" 2
  refine ⟨?_, ?_, ?_⟩
  · rw [handleIncoming, hresult, fromUtf8_asBytes]
    rfl
  · rw [handleIncoming, hresult]
    rfl
  · rintro ⟨data, hclaim⟩
    have hacts := (@acts_result_iff strictPrimitives .still bobInRound bobContext "#g" 2 hiFrame
      []).mpr (by rw [unpadMessage_hiFrame]; exact Option.some_ne_none _)
    obtain ⟨vk, -, hverify⟩ := hclaim hacts
    cases hverify

/-! ## One event per round -/

/-- The channel and the round of the result that a step receives, if its frame passes the
checksum. -/
def Step.received (prim : Primitives) (s : Step) : Option (String × ℕ) :=
  match s.input with
  | .call _ _ (.handleIncoming (.dcRoundResult channel roundId extractedMessage _)) =>
    if (unpadMessage prim extractedMessage).isSome then some (channel, roundId) else none
  | _ => none

/-- The results received so far. -/
def receivedResults (prim : Primitives) (history : List Step) : List (String × ℕ) :=
  history.filterMap (Step.received prim)

/-- The events so far. -/
def events (prim : Primitives) (history : List Step) : List RoundEvent :=
  history.filterMap fun s => (s.result prim).event

/-- A result is for a round whose start has been accepted, and the first one for this channel and
round. -/
def FirstResult (prim : Primitives) (history : List Step) (s : Step) : Prop :=
  ∀ key, s.received prim = some key →
    key.2 ∈ joinedRounds history ∧ key ∉ receivedResults prim history

instance (prim : Primitives) (history : List Step) (s : Step) :
    Decidable (FirstResult prim history s) :=
  inferInstanceAs (Decidable (∀ key, key ∈ s.received prim → _))

/-- Where an event comes from: a received result, or the end of a round that the engine has led. -/
def Explained (prim : Primitives) (e : RoundEngine) (history : List Step) (key : String × ℕ) :
    Prop :=
  (key.2 ∈ joinedRounds history ∧ key ∈ receivedResults prim history) ∨
    ((∃ channel, (key.2, channel) ∈ ledRounds history) ∧ key.2 ∉ e.collectors)

/-- The events so far are distinct, and each has its cause. -/
structure Told (prim : Primitives) (e : RoundEngine) (history : List Step) : Prop where
  nodup : ((events prim history).map RoundEvent.key).Nodup
  explained : ∀ event ∈ events prim history, Explained prim e history event.key

section Step

variable {history : List Step} {input : Input}

/-- A step adds no collector but that of the next round. -/
theorem mem_collectors_step (prim : Primitives) (e : RoundEngine) (input : Input) {id : ℕ}
    (h : id ∈ (e.step prim input).engine.collectors) :
    id ∈ e.collectors ∨ id = e.tracker.currentRoundId + 1 := by
  cases step_effect prim e input with
  | quiet _ _ _ hcollectors => exact .inl (hcollectors ▸ h)
  | lead _ _ hcollectors =>
    rw [hcollectors] at h
    exact ((AList.mem_insert _).mp h).symm
  | join _ _ hcollectors => exact .inl (hcollectors ▸ h)
  | share htakes hcollected =>
    obtain ⟨c', hc'⟩ := HashMap.mem_iff_exists_lookup.mp h
    obtain ⟨c, hc, -⟩ := hcollected.lookup htakes hc'
    exact .inl (HashMap.mem_iff_exists_lookup.mpr ⟨c, hc⟩)
  | receive _ _ hcollectors => exact .inl (hcollectors ▸ h)

/-- The cause of an event stays. -/
theorem Explained.step {key : String × ℕ} (h : Explained prim e history key)
    (hnumbered : Numbered e history) :
    Explained prim (e.step prim input).engine (history ++ [⟨e, input⟩]) key := by
  rcases h with ⟨hjoined, hreceived⟩ | ⟨⟨channel, hled⟩, hclosed⟩
  · refine .inl ⟨mem_joinedRounds_snoc hjoined _, ?_⟩
    rw [receivedResults, filterMap_snoc]
    exact List.mem_append_left _ hreceived
  · refine .inr ⟨⟨channel, mem_ledRounds_snoc hled _⟩, fun hmem => ?_⟩
    rcases mem_collectors_step prim e input hmem with hold | hnew
    · exact hclosed hold
    -- the number of a new collector is above those of all rounds so far
    · have hle := hnumbered.led_le _ hled
      dsimp only at hle
      omega

/-- A step keeps the events distinct if its own event is new. -/
theorem Told.snoc (h : Told prim e history) (hnumbered : Numbered e history)
    (hnew : ∀ event, (e.step prim input).event = some event →
      (∀ old ∈ events prim history, old.key ≠ event.key) ∧
        Explained prim (e.step prim input).engine (history ++ [⟨e, input⟩]) event.key) :
    Told prim (e.step prim input).engine (history ++ [⟨e, input⟩]) := by
  have hevents : events prim (history ++ [⟨e, input⟩]) =
      events prim history ++ (e.step prim input).event.toList := by
    rw [events, filterMap_snoc]
    rfl
  constructor
  -- the keys of the old events stay distinct, and the new one is not among them
  · rw [hevents, List.map_append]
    refine h.nodup.append ?_ ?_
    · cases (e.step prim input).event <;> simp
    · intro key hold hkey
      obtain ⟨old, hmem, rfl⟩ := List.mem_map.mp hold
      obtain ⟨event, hevent, heq⟩ := List.mem_map.mp hkey
      exact (hnew event (Option.mem_toList.mp hevent)).1 old hmem heq.symm
  · intro event hevent
    rw [hevents, List.mem_append] at hevent
    rcases hevent with hold | hevent
    · exact (h.explained event hold).step hnumbered
    · exact (hnew event (Option.mem_toList.mp hevent)).2

/-- A round that we lead tells of its text once. -/
theorem new_event_share (h : Told prim e history) (hnumbered : Numbered e history)
    {channel : String} {roundId : ℕ} {peerUid : String} {xored signature : Bytes}
    {c c' : RoundCollector} {r : EngineResult}
    (htakes : Takes prim e ctx channel roundId peerUid xored signature c c')
    (hcollected : Collected e channel roundId c' r) {event : RoundEvent}
    (hevent : r.event = some event) :
    (∀ old ∈ events prim history, old.key ≠ event.key) ∧
      (event.key.2, c.channel) ∈ ledRounds history ∧ event.key.2 ∉ r.engine.collectors := by
  have hled := hnumbered.collector_led roundId c htakes.2.1
  cases hcollected with
  | stored => cases hevent
  | dropped => cases hevent
  | extracted text payload targets =>
    obtain rfl := Option.some.inj hevent
    refine ⟨fun old hold heq => ?_, hled, fun hmem => ?_⟩
    -- an earlier event about this round would have removed its collector
    · rcases h.explained old hold with ⟨hjoined, -⟩ | ⟨-, hclosed⟩
      · rw [heq] at hjoined
        exact hnumbered.led_not_joined _ hled hjoined
      · rw [heq] at hclosed
        exact hclosed (HashMap.mem_iff_exists_lookup.mpr ⟨c, htakes.2.1⟩)
    · exact absurd rfl (AList.mem_erase.mp hmem).1

/-- The first result of a round that we are invited to tells of a new text. -/
theorem new_event_result (h : Told prim e history) (hnumbered : Numbered e history)
    {key : String × ℕ} (hjoined : key.2 ∈ joinedRounds history)
    (hfirst : key ∉ receivedResults prim history) :
    ∀ old ∈ events prim history, old.key ≠ key := by
  intro old hold heq
  -- the old event came from the same result, or we have led a round that we were invited to
  rcases h.explained old hold with ⟨-, hreceived⟩ | ⟨⟨channel, hled⟩, -⟩
  · exact hfirst (heq ▸ hreceived)
  · rw [heq] at hled
    exact hnumbered.led_not_joined _ hled hjoined

theorem Told.step (h : Told prim e history) (hnumbered : Numbered e history)
    (hok : FirstResult prim history ⟨e, input⟩) :
    Told prim (e.step prim input).engine (history ++ [⟨e, input⟩]) := by
  refine h.snoc hnumbered fun event hevent => ?_
  cases step_effect prim e input with
  | quiet _ _ _ _ hnone => cases hnone.symm.trans hevent
  | lead _ _ _ hnone => cases hnone.symm.trans hevent
  | join _ _ _ hnone => cases hnone.symm.trans hevent
  | share htakes hcollected =>
    obtain ⟨hnew, hled, hclosed⟩ := new_event_share h hnumbered htakes hcollected hevent
    exact ⟨hnew, .inr ⟨⟨_, mem_ledRounds_snoc hled _⟩, hclosed⟩⟩
  | @receive env ctx channel roundId extractedMessage leaderSignature bytes hframe _ _ hsome =>
    obtain rfl := Option.some.inj (hsome.symm.trans hevent)
    have hreceived : Step.received prim ⟨e, .call env ctx (.handleIncoming
        (.dcRoundResult channel roundId extractedMessage leaderSignature))⟩ =
        some (channel, roundId) := by
      rw [Step.received]
      exact if_pos (by rw [hframe]; rfl)
    -- here the condition on the run is used
    obtain ⟨hjoined, hfirst⟩ := hok _ hreceived
    refine ⟨new_event_result h hnumbered hjoined hfirst,
      .inl ⟨mem_joinedRounds_snoc hjoined _, ?_⟩⟩
    rw [receivedResults, filterMap_snoc, hreceived]
    exact List.mem_append_right _ (List.mem_singleton.mpr rfl)

end Step

/-- In every run in which results are received once, and for rounds whose start has been accepted,
there is at most one event for each channel and round, and none for a round that the engine has
neither started nor accepted a start for. -/
theorem one_event_per_round (prim : Primitives) {e : RoundEngine} {history : List Step}
    (hreach : Reachable prim (FirstResult prim) e history) :
    ((events prim history).map RoundEvent.key).Nodup ∧
      ∀ event ∈ events prim history, event.key.2 ∈ joinedRounds history ∨
        ∃ channel, (event.key.2, channel) ∈ ledRounds history := by
  have htold : Told prim e history := by
    induction hreach with
    | start => exact ⟨List.nodup_nil, nofun⟩
    | step input hreach hok ih => exact ih.step hreach.numbered hok
  refine ⟨htold.nodup, fun event hevent => ?_⟩
  rcases htold.explained event hevent with ⟨hjoined, -⟩ | ⟨hled, -⟩
  · exact .inl hjoined
  · exact .inr hled

/-- `alice` announces round 1 to `bob`. -/
def aliceStarts : Input :=
  .call .still bobContext (.handleIncoming (.dcRoundStart "#g" 1 "alice" ["alice", "bob"] 30 1024))

/-- Somebody announces the result of round 1 to `bob`. -/
def resultArrives : Input :=
  .call .still bobContext (.handleIncoming (.dcRoundResult "#g" 1 hiFrame []))

/-- The result of a round that `bob` is invited to is received once. -/
theorem one_event_per_round_first_result :
    ∃ e history, Reachable strictPrimitives (FirstResult strictPrimitives) e history ∧
      (events strictPrimitives history).map RoundEvent.key = [("#g", 1)] ∧
      ((events strictPrimitives history).map RoundEvent.key).Nodup ∧
        ∀ event ∈ events strictPrimitives history, event.key.2 ∈ joinedRounds history ∨
          ∃ channel, (event.key.2, channel) ∈ ledRounds history := by
  have hstart : Reachable strictPrimitives (FirstResult strictPrimitives)
      ((new "bob").step strictPrimitives aliceStarts).engine [⟨new "bob", aliceStarts⟩] :=
    .step aliceStarts (.start "bob") nofun
  have hresult := hstart.step resultArrives (by decide +kernel)
  exact ⟨_, _, hresult, by decide +kernel, one_event_per_round strictPrimitives hresult⟩

/-- A repeated result is received twice, though its round was never started. -/
theorem result_received_twice :
    ¬ ∀ (prim : Primitives) (e : RoundEngine) (history : List Step),
      Reachable prim (fun _ _ => True) e history →
        ((events prim history).map RoundEvent.key).Nodup ∧
          ∀ event ∈ events prim history, event.key.2 ∈ joinedRounds history ∨
            ∃ channel, (event.key.2, channel) ∈ ledRounds history := by
  intro hclaim
  have hfirst : Reachable strictPrimitives (fun _ _ => True)
      ((new "bob").step strictPrimitives resultArrives).engine [⟨new "bob", resultArrives⟩] :=
    .step resultArrives (.start "bob") trivial
  have htwice := hfirst.step resultArrives trivial
  exact absurd (hclaim _ _ _ htwice).1 (by decide +kernel)

end RoundEngine

end ChronoShift
