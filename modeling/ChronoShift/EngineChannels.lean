import ChronoShift.EngineRuns

/-!
# Channels of the round engine

One counter, one queue and one table of collectors serve all channels. The answer to a start depends
on the counter and the queue, so a round of another channel changes it exactly if it moves the
counter. A share finds its collector by the number of the round alone, while its signature is
checked for the channel that it names itself.

* `RoundEngine.answer_after_messages`: what messages, of any channel, do to the answer to a start;
* `RoundEngine.shares_stay_iff`: the shares of a round are those of its channel if and only if no
  open round is sent a share of another channel.
-/

namespace ChronoShift

open ToMathlib

namespace RoundEngine

variable {prim : Primitives} {env : CallEnv} {e : RoundEngine} {ctx : RoundContext}

/-! ## Answers -/

/-- A message with what the engine meets when it is handled. -/
structure Arrival where
  env : CallEnv
  ctx : RoundContext
  msg : PeerMessage

/-- Handle messages one after the other. -/
def handleAll (prim : Primitives) (e : RoundEngine) (arrivals : List Arrival) : RoundEngine :=
  arrivals.foldl (fun e a => (e.handleIncoming prim a.env a.ctx a.msg).engine) e

/-- One of the messages opens or closes the round after the counter. -/
def Counts (prim : Primitives) (e : RoundEngine) (arrivals : List Arrival) : Prop :=
  ∃ a ∈ arrivals, countedId prim a.msg = some (e.tracker.currentRoundId + 1)

theorem currentRoundId_le_handleAll (arrivals : List Arrival) :
    e.tracker.currentRoundId ≤ (e.handleAll prim arrivals).tracker.currentRoundId := by
  induction arrivals generalizing e with
  | nil => exact le_rfl
  | cons a arrivals ih =>
    refine le_trans ?_ (ih (e := (e.handleIncoming prim a.env a.ctx a.msg).engine))
    rw [currentRoundId_handleIncoming]
    split <;> omega

theorem myUid_handleAll (arrivals : List Arrival) :
    (e.handleAll prim arrivals).myUid = e.myUid := by
  induction arrivals generalizing e with
  | nil => rfl
  | cons a arrivals ih => exact ih.trans (myUid_handleIncoming a.msg)

/-- Messages of which none is counted leave counter and queue alone. -/
theorem tracker_handleAll_of_not_counts {arrivals : List Arrival}
    (h : ¬ Counts prim e arrivals) : (e.handleAll prim arrivals).tracker = e.tracker := by
  induction arrivals generalizing e with
  | nil => rfl
  | cons a arrivals ih =>
    have hhead : countedId prim a.msg ≠ some (e.tracker.currentRoundId + 1) :=
      fun hcounted => h ⟨a, List.mem_cons_self, hcounted⟩
    have htracker := @tracker_handleIncoming_of_ne prim a.env e a.ctx a.msg hhead
    refine (ih fun hcounts => h ?_).trans htracker
    obtain ⟨b, hb, hcounted⟩ := hcounts
    rw [htracker] at hcounted
    exact ⟨b, List.mem_cons_of_mem a hb, hcounted⟩

/-- Messages of which one is counted move the counter. -/
theorem lt_currentRoundId_handleAll {arrivals : List Arrival} (h : Counts prim e arrivals) :
    e.tracker.currentRoundId < (e.handleAll prim arrivals).tracker.currentRoundId := by
  induction arrivals generalizing e with
  | nil =>
    obtain ⟨a, ha, -⟩ := h
    cases ha
  | cons a arrivals ih =>
    by_cases hhead : countedId prim a.msg = some (e.tracker.currentRoundId + 1)
    · have hmoved := @currentRoundId_handleIncoming_of_eq prim a.env e a.ctx a.msg hhead
      have hle := @currentRoundId_le_handleAll prim
        (e.handleIncoming prim a.env a.ctx a.msg).engine arrivals
      exact lt_of_lt_of_le (by omega) hle
    -- the counted message is still to come, and the counter is as it was
    · have htracker := @tracker_handleIncoming_of_ne prim a.env e a.ctx a.msg hhead
      obtain ⟨b, hb, hcounted⟩ := h
      have hmem : b ∈ arrivals := by
        rcases List.mem_cons.mp hb with rfl | hb
        · exact absurd hcounted hhead
        · exact hb
      have hlt := ih (e := (e.handleIncoming prim a.env a.ctx a.msg).engine)
        ⟨b, hmem, by rw [htracker]; exact hcounted⟩
      rw [htracker] at hlt
      exact hlt

/-- The answer to a start depends on our uid, the counter and the queue only. -/
theorem outgoing_handleRoundStart_congr {e' : RoundEngine} (huid : e'.myUid = e.myUid)
    (htracker : e'.tracker = e.tracker) (channel : String) (roundId : ℕ) (leaderId : String)
    (participants : List String) (payloadLen : ℕ) :
    (e'.handleRoundStart prim ctx channel roundId leaderId participants payloadLen).outgoing =
      (e.handleRoundStart prim ctx channel roundId leaderId participants payloadLen).outgoing := by
  by_cases hnext : roundId = e.tracker.currentRoundId + 1
  · rw [(handleRoundStart_next hnext channel leaderId participants payloadLen).2.2,
      (handleRoundStart_next (e := e') (by rw [htracker, hnext]) channel leaderId participants
        payloadLen).2.2, answer, answer, huid, htracker]
  · rw [handleRoundStart_of_ne hnext, handleRoundStart_of_ne (by rwa [htracker])]

/-- Messages, of whatever channels, do not change the answer to a later start, unless one of them
opens or closes the round after the counter. Then a start that would have been answered before is
not answered any more. -/
theorem answer_after_messages (prim : Primitives) (e : RoundEngine) (arrivals : List Arrival)
    (env : CallEnv) (ctx : RoundContext) (channel : String) (roundId : ℕ) (leaderId : String)
    (participants : List String) (deadlineSecs payloadLen : ℕ) :
    let start := PeerMessage.dcRoundStart channel roundId leaderId participants deadlineSecs
      payloadLen
    let before := (e.handleIncoming prim env ctx start).outgoing
    let after := ((e.handleAll prim arrivals).handleIncoming prim env ctx start).outgoing
    (¬ Counts prim e arrivals → after = before) ∧
      (Counts prim e arrivals → before ≠ [] → after = []) := by
  dsimp only [handleIncoming]
  refine ⟨fun hquiet => ?_, fun hcounts hanswered => ?_⟩
  · exact outgoing_handleRoundStart_congr (myUid_handleAll arrivals)
      (tracker_handleAll_of_not_counts hquiet) channel roundId leaderId participants payloadLen
  · have hnext : roundId = e.tracker.currentRoundId + 1 := by
      by_contra hne
      rw [handleRoundStart_of_ne hne] at hanswered
      exact hanswered rfl
    -- the counter has reached the number of the start, so it is refused
    have hlt := lt_currentRoundId_handleAll hcounts
    rw [handleRoundStart_of_ne (by omega)]

/-- `bob` shares an edge key with `alice`. -/
def bobWithKey : RoundContext :=
  ⟨"bob", .replicate 32 0, .singleton "alice" (.replicate 32 9), ∅⟩

/-- `alice` starts round 1 on a channel. -/
def startOn (channel : String) : PeerMessage :=
  .dcRoundStart channel 1 "alice" ["alice", "bob"] 30 64

/-- After a round on `#x` the start of the first round on `#y` is not answered. -/
theorem answer_changed_by_other_channel :
    ((new "bob").handleIncoming .const .still bobWithKey (startOn "#y")).outgoing ≠ [] ∧
      (((new "bob").handleAll .const [⟨.still, bobWithKey, startOn "#x"⟩]).handleIncoming .const
        .still bobWithKey (startOn "#y")).outgoing = [] := by
  decide +kernel

/-! ## Shares -/

/-- The channel that a round was started on. -/
def channelOf (history : List Step) (roundId : ℕ) : Option String :=
  ((ledRounds history).find? (·.1 = roundId)).map Prod.snd

/-- The incoming share that a step handles. -/
structure IncomingShare where
  ctx : RoundContext
  channel : String
  roundId : ℕ
  peerUid : String
  xored : Bytes
  signature : Bytes

/-- The incoming share that a step handles, if it handles one. -/
def Step.share (s : Step) : Option IncomingShare :=
  match s.input with
  | .call _ ctx (.handleIncoming (.dcRoundShare channel roundId peerUid xored signature)) =>
    some ⟨ctx, channel, roundId, peerUid, xored, signature⟩
  | _ => none

/-- The share verifies on a channel, under the key of its sender. -/
def IncomingShare.SignedFor (prim : Primitives) (keys : String → Bytes32) (m : IncomingShare)
    (channel : String) : Prop :=
  verifyShareSignature prim (keys m.peerUid) channel m.roundId m.xored m.signature = true

/-- The share is stored in a collector, and so is part of its sum. -/
def IncomingShare.Taken (prim : Primitives) (e : RoundEngine) (m : IncomingShare) : Prop :=
  ∃ c c', Takes prim e m.ctx m.channel m.roundId m.peerUid m.xored m.signature c c'

/-- Every share of a round was sent and signed for the channel that the round was started on, and
every extracted text and announced result names this channel. -/
structure InChannel (prim : Primitives) (keys : String → Bytes32) (history : List Step) : Prop where
  share : ∀ s ∈ history, ∀ m, s.share = some m → m.Taken prim s.before →
    ∃ channel, channelOf history m.roundId = some channel ∧ m.channel = channel ∧
      m.SignedFor prim keys channel
  event : ∀ s ∈ history, ∀ channel text roundId,
    (s.result prim).event = some (.messageExtracted channel text roundId) →
      channelOf history roundId = some channel
  result : ∀ s ∈ history, ∀ target channel roundId payload signature,
    (target, .dcRoundResult channel roundId payload signature) ∈ (s.result prim).outgoing →
      channelOf history roundId = some channel

/-- A share of another channel does not come from a participant whose share is missing, with the
length of the round and a signature that is not found wrong. -/
def SameChannel (prim : Primitives) (s : Step) : Prop :=
  ∀ m c, s.share = some m → s.before.collectors.lookup m.roundId = some c →
    badSignature prim m.ctx m.channel m.roundId m.peerUid m.xored m.signature = false →
    m.peerUid ∈ c.participants → m.peerUid ∉ c.sharesReceived →
    m.xored.length = c.payloadLen → m.channel = c.channel

theorem channelOf_eq_some_iff {history : List Step} (h : Numbered e history) {roundId : ℕ}
    {channel : String} :
    channelOf history roundId = some channel ↔ (roundId, channel) ∈ ledRounds history := by
  rw [channelOf, Option.map_eq_some_iff]
  constructor
  · rintro ⟨round, hfind, rfl⟩
    have hid : round.1 = roundId := by simpa using List.find?_some hfind
    rw [← hid]
    exact List.mem_of_find?_eq_some hfind
  · intro hmem
    have hsome : ((ledRounds history).find? (·.1 = roundId)).isSome := by
      rw [List.find?_isSome]
      exact ⟨_, hmem, decide_eq_true rfl⟩
    obtain ⟨round, hround⟩ := Option.isSome_iff_exists.mp hsome
    -- no number is used twice, so the round that is found is this one
    have hid : round.1 = roundId := by simpa using List.find?_some hround
    have heq : round = (roundId, channel) :=
      List.inj_on_of_nodup_map h.led_nodup (List.mem_of_find?_eq_some hround) hmem hid
    exact ⟨round, hround, by rw [heq]⟩

/-- A step of a history was taken in a state that its earlier steps lead to. -/
theorem Reachable.before {ok : List Step → Step → Prop} {history : List Step}
    (h : Reachable prim ok e history) {s : Step} (hs : s ∈ history) :
    ∃ earlier, Reachable prim ok s.before earlier ∧ earlier <+: history := by
  induction h with
  | start => cases hs
  | step input hreach hok ih =>
    rcases List.mem_append.mp hs with hold | hnew
    · obtain ⟨earlier, hearlier, hinit⟩ := ih hold
      exact ⟨earlier, hearlier, hinit.trans (List.prefix_append _ _)⟩
    · obtain rfl := List.mem_singleton.mp hnew
      exact ⟨_, hreach, List.prefix_append _ _⟩

/-- The collectors of an engine have the channels of their rounds, also later on. -/
theorem Reachable.channelOf_eq {ok : List Step → Step → Prop} {history : List Step}
    (h : Reachable prim ok e history) {s : Step} (hs : s ∈ history) {roundId : ℕ}
    {c : RoundCollector} (hc : s.before.collectors.lookup roundId = some c) :
    channelOf history roundId = some c.channel := by
  obtain ⟨earlier, hearlier, hinit⟩ := h.before hs
  rw [channelOf_eq_some_iff h.numbered]
  exact (hinit.sublist.filterMap Step.led).subset
    (hearlier.numbered.collector_led roundId c hc)

/-- A taken share is told and announced with its own channel and round. -/
theorem Collected.told {channel channel' : String} {roundId roundId' : ℕ} {c' : RoundCollector}
    {r : EngineResult} (hcollected : Collected e channel' roundId' c' r)
    (h : (∃ text, r.event = some (.messageExtracted channel text roundId)) ∨
      ∃ target payload signature,
        (target, .dcRoundResult channel roundId payload signature) ∈ r.outgoing) :
    channel' = channel ∧ roundId' = roundId := by
  cases hcollected with
  | stored => rcases h with ⟨text, h⟩ | ⟨target, payload, signature, h⟩ <;> cases h
  | dropped => rcases h with ⟨text, h⟩ | ⟨target, payload, signature, h⟩ <;> cases h
  | extracted text payload targets =>
    rcases h with ⟨text, h⟩ | ⟨target, payload, signature, h⟩
    · cases h
      exact ⟨rfl, rfl⟩
    · obtain ⟨p, -, heq⟩ := List.mem_map.mp h
      cases heq
      exact ⟨rfl, rfl⟩

/-- What a step tells or announces of a round, it takes from a share of this round. -/
theorem exists_taken_of_told (s : Step) {channel : String} {roundId : ℕ}
    (h : (∃ text, (s.result prim).event = some (.messageExtracted channel text roundId)) ∨
      ∃ target payload signature,
        (target, .dcRoundResult channel roundId payload signature) ∈ (s.result prim).outgoing) :
    ∃ m, s.share = some m ∧ m.Taken prim s.before ∧ m.channel = channel ∧ m.roundId = roundId := by
  obtain ⟨e, input⟩ := s
  rw [Step.result] at h
  -- only a share that is taken extracts or announces anything
  cases step_effect prim e input with
  | quiet _ _ _ _ hevent hout =>
    rw [hevent, hout] at h
    rcases h with ⟨text, h⟩ | ⟨target, payload, signature, h⟩ <;> cases h
  | lead _ _ _ hevent hout =>
    rw [hevent, hout] at h
    rcases h with ⟨text, h⟩ | ⟨target, payload, signature, h⟩
    · cases h
    · obtain ⟨p, -, heq⟩ := List.mem_map.mp h
      cases heq
  | join _ _ _ hevent hout =>
    rw [hevent, hout] at h
    rcases h with ⟨text, h⟩ | ⟨target, payload, signature, h⟩
    · cases h
    · obtain ⟨share, -, heq⟩ := List.mem_map.mp h
      cases heq
  | @share env ctx channel' roundId' peerUid xored signature' c c' htakes hcollected =>
    refine ⟨⟨ctx, channel', roundId', peerUid, xored, signature'⟩, rfl, ⟨c, c', htakes⟩, ?_⟩
    exact hcollected.told h
  | receive _ _ _ hevent hout =>
    rw [hevent, hout] at h
    rcases h with ⟨text, h⟩ | ⟨target, payload, signature, h⟩ <;> cases h

/-- A share that is taken is the missing one of a participant, with the length of the round. -/
theorem SameChannel.channel_eq {s : Step} (h : SameChannel prim s) {m : IncomingShare}
    (hm : s.share = some m) {c c' : RoundCollector}
    (htakes : Takes prim s.before m.ctx m.channel m.roundId m.peerUid m.xored m.signature c c') :
    m.channel = c.channel := by
  obtain ⟨hgood, hc, hsubmit⟩ := htakes
  obtain ⟨hmem, hmissing, hlen, -⟩ := RoundCollector.submitShare_eq_ok.mp hsubmit
  exact h m c hm hc hgood hmem hmissing hlen

/-- In every run whose incoming shares are signed for the channels that they name, the shares of a
round are those of its channel, and so are its texts and results, if and only if no open round is
sent a missing share of another channel. -/
theorem shares_stay_iff (prim : Primitives) (keys : String → Bytes32) {e : RoundEngine}
    {history : List Step} (hreach : Reachable prim (fun _ _ => True) e history)
    (hsigned : ∀ s ∈ history, ∀ m, s.share = some m → m.SignedFor prim keys m.channel) :
    InChannel prim keys history ↔ ∀ s ∈ history, SameChannel prim s := by
  constructor
  -- a share that meets the tests is taken, so its channel is that of the collector
  · intro h s hs m c hm hc hgood hmem hmissing hlen
    have hsubmit := RoundCollector.submitShare_eq_ok.mpr ⟨hmem, hmissing, hlen, rfl⟩
    obtain ⟨channel, hchannel, heq, -⟩ := h.share s hs m hm ⟨c, _, hgood, hc, hsubmit⟩
    rw [hreach.channelOf_eq hs hc] at hchannel
    exact heq.trans (Option.some.inj hchannel).symm
  · intro h
    have htaken : ∀ s ∈ history, ∀ m, s.share = some m → m.Taken prim s.before →
        channelOf history m.roundId = some m.channel := by
      rintro s hs m hm ⟨c, c', htakes⟩
      rw [hreach.channelOf_eq hs htakes.2.1, (h s hs).channel_eq hm htakes]
    refine ⟨fun s hs m hm htakes => ?_, fun s hs channel text roundId hevent => ?_,
      fun s hs target channel roundId payload signature hout => ?_⟩
    · exact ⟨m.channel, htaken s hs m hm htakes, rfl, hsigned s hs m hm⟩
    · obtain ⟨m, hm, htakes, rfl, rfl⟩ := exists_taken_of_told s (.inl ⟨text, hevent⟩)
      exact htaken s hs m hm htakes
    · obtain ⟨m, hm, htakes, rfl, rfl⟩ := exists_taken_of_told s
        (.inr ⟨target, payload, signature, hout⟩)
      exact htaken s hs m hm htakes

/-- Primitives whose signatures repeat what they sign. -/
def echoPrimitives : Primitives :=
  { Primitives.const with sign := fun _ msg => msg, verify := fun _ msg sig => msg = sig }

def aliceContext : RoundContext := ⟨"alice", .replicate 32 0, ∅, ∅⟩

/-- `alice` starts a round on `#x`. -/
def aliceLeads : Input := .call .still aliceContext (.startRoundAsLeader "#x" ["alice", "bob"])

/-- `bob` sends `alice` a share of round 1, signed for a channel. -/
def bobSends (channel : String) : Input :=
  .call .still aliceContext (.handleIncoming (.dcRoundShare channel 1 "bob" (List.replicate 1024 0)
    (shareSignatureMessage channel 1 (List.replicate 1024 0))))

/-- `alice`, once the round is started. -/
def leadingAlice : RoundEngine := ((new "alice").step echoPrimitives aliceLeads).engine

/-- The share reaches `alice` during the round. -/
def shareHistory (channel : String) : List Step :=
  [⟨new "alice", aliceLeads⟩, ⟨leadingAlice, bobSends channel⟩]

theorem reachable_shareHistory (channel : String) :
    Reachable echoPrimitives (fun _ _ => True)
      (leadingAlice.step echoPrimitives (bobSends channel)).engine (shareHistory channel) := by
  have hlead : Reachable echoPrimitives (fun _ _ => True) leadingAlice
      [⟨new "alice", aliceLeads⟩] := .step aliceLeads (.start "alice") trivial
  exact hlead.step (bobSends channel) trivial

theorem signed_shareHistory (channel : String) :
    ∀ s ∈ shareHistory channel, ∀ m, s.share = some m →
      m.SignedFor echoPrimitives (fun _ => .replicate 32 0) m.channel := by
  intro s hs m hm
  rcases List.mem_cons.mp hs with rfl | hs
  · cases hm
  · obtain rfl := List.mem_singleton.mp hs
    obtain rfl := Option.some.inj hm
    exact decide_eq_true rfl

/-- The open round of `alice`. -/
theorem lookup_leadingAlice : ∃ c, leadingAlice.collectors.lookup 1 = some c ∧
    c.channel = "#x" ∧ c.participants = ["alice", "bob"] ∧ c.sharesReceived = ∅ ∧
      c.payloadLen = 1024 :=
  ⟨_, rfl, rfl, rfl, rfl, rfl⟩

/-- A share of the channel of the round stays in its channel. -/
theorem shares_stay_iff_same_channel :
    InChannel echoPrimitives (fun _ => .replicate 32 0) (shareHistory "#x") := by
  refine (shares_stay_iff echoPrimitives _ (reachable_shareHistory "#x")
    (signed_shareHistory "#x")).mpr fun s hs m c hm hc _ _ _ _ => ?_
  rcases List.mem_cons.mp hs with rfl | hs
  · cases hm
  · obtain rfl := List.mem_singleton.mp hs
    obtain rfl := Option.some.inj hm
    obtain ⟨c', hc', hchannel, -⟩ := lookup_leadingAlice
    obtain rfl := Option.some.inj (hc'.symm.trans hc)
    exact hchannel.symm

/-- A share that is signed for `#y` enters the round on `#x`. -/
theorem share_of_other_channel_taken :
    ¬ ∀ (prim : Primitives) (keys : String → Bytes32) (e : RoundEngine) (history : List Step),
      Reachable prim (fun _ _ => True) e history →
        (∀ s ∈ history, ∀ m, s.share = some m → m.SignedFor prim keys m.channel) →
          InChannel prim keys history := by
  intro hclaim
  have hin := hclaim _ _ _ _ (reachable_shareHistory "#y") (signed_shareHistory "#y")
  obtain ⟨c, hc, -, hparticipants, hshares, hlen⟩ := lookup_leadingAlice
  have hsubmit := RoundCollector.submitShare_eq_ok.mpr ⟨(by rw [hparticipants]; decide :
    "bob" ∈ c.participants), (by rw [hshares]; exact AList.notMem_empty _ :
      "bob" ∉ c.sharesReceived), (by rw [hlen]; exact List.length_replicate :
        (List.replicate 1024 (0 : UInt8)).length = c.payloadLen), rfl⟩
  obtain ⟨channel, hstarted, heq, -⟩ := hin.share ⟨leadingAlice, bobSends "#y"⟩
    (List.mem_cons_of_mem _ List.mem_cons_self) _ rfl ⟨c, _, rfl, hc, hsubmit⟩
  rw [← heq] at hstarted
  exact absurd hstarted (by decide +kernel)

end RoundEngine

end ChronoShift
