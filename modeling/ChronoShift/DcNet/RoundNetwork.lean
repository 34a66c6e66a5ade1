import ChronoShift.DcNet.Share
import ChronoShift.Net.PeerMessage

/-!
# Round collectors, the round counter and round messages

`RoundCollector` gathers the shares of one round, `RoundTracker` holds the monotonic round
counter and the message queue of a node, and `shareSignatureMessage` is what a share's signature
covers (`dcnet/round_network.rs`).

A collector's participants are a hash set, kept as a duplicate-free list; a clock reading is a
number of seconds passed in by the caller.

* `submitShare_eq_ok`: what an accepted submission does;
* `extractMessage_spec`: the extracted word is the exclusive-or sum of the stored shares,
  whatever order they are visited in;
* `missingParticipants_eq_singleton`: the test that triggers the initiator's own share.
-/

namespace ChronoShift

open ToMathlib

/-- Maximum round deadline in seconds. -/
def maxRoundDeadlineSecs : ℕ := 30

/-- Default payload length. -/
def defaultPayloadLen : ℕ := 1024

/-- Domain separator of share signatures. -/
def shareSigDomain : Bytes := asBytes "chrono-dcnet-share-v1"

/-- The shares collected for one round. -/
structure RoundCollector where
  channel : String
  roundId : ℕ
  participants : List String
  sharesReceived : HashMap String Bytes
  deadline : ℕ
  payloadLen : ℕ

namespace RoundCollector

/-- A collector with no shares. The payload length is clamped, the deadline is capped. -/
def new (channel : String) (roundId : ℕ) (participants : List String)
    (deadlineSecs payloadLen now : ℕ) : RoundCollector where
  channel := channel
  roundId := roundId
  participants := participants.dedup
  sharesReceived := ∅
  deadline := now + min deadlineSecs maxRoundDeadlineSecs
  payloadLen := max 4 (min payloadLen 65536)

/-- The deadline has passed at the clock reading `now`. -/
def isExpired (c : RoundCollector) (now : ℕ) : Bool := c.deadline ≤ now

/-- All participants have submitted. -/
def isComplete (c : RoundCollector) : Bool :=
  c.participants.length ≤ c.sharesReceived.entries.length

/-- Submit a participant's share; outsiders, duplicates and wrong lengths are refused. -/
def submitShare (c : RoundCollector) (peerUid : String) (xored : Bytes) :
    Except String RoundCollector :=
  -- first-wins: a second share of a participant is refused, never stored
  if peerUid ∉ c.participants then
    .error s!"{peerUid} is not a participant of this round"
  else if peerUid ∈ c.sharesReceived then
    .error s!"duplicate share from {peerUid}"
  else if xored.length ≠ c.payloadLen then
    .error s!"Share length mismatch: got {xored.length}, expected {c.payloadLen}"
  else .ok { c with sharesReceived := c.sharesReceived.insert peerUid xored }

/-- Submit a share and ignore a refusal. -/
def trySubmit (c : RoundCollector) (peerUid : String) (xored : Bytes) : RoundCollector :=
  match c.submitShare peerUid xored with
  | .ok c => c
  | .error _ => c

/-- The participants that have not submitted yet. -/
def missingParticipants (c : RoundCollector) : List String :=
  c.participants.filter fun p => p ∉ c.sharesReceived

/-- The XOR of all received shares. -/
def extractMessage (c : RoundCollector) : Option Bytes :=
  if c.sharesReceived.entries.isEmpty then none
  else
    some (c.sharesReceived.values.foldl
      (fun result share => copyFromSlice result 0 (xorBytes result share))
      (List.replicate c.payloadLen 0))

/-- The stored shares belong to participants and have the collector's payload length. -/
structure WellFormed (c : RoundCollector) : Prop where
  nodup : c.participants.Nodup
  keys : ∀ uid ∈ c.sharesReceived, uid ∈ c.participants
  lengths : ∀ uid share, c.sharesReceived.lookup uid = some share → share.length = c.payloadLen

/-- A new collector has no shares. -/
theorem wellFormed_new (channel : String) (roundId : ℕ) (participants : List String)
    (deadlineSecs payloadLen now : ℕ) :
    (new channel roundId participants deadlineSecs payloadLen now).WellFormed where
  nodup := List.nodup_dedup participants
  keys uid h := absurd h (AList.notMem_empty uid)
  lengths uid share h := by simp [new] at h

/-- An accepted submission stores the share of a participant that had none. -/
theorem submitShare_eq_ok {c c' : RoundCollector} {peerUid : String} {xored : Bytes} :
    c.submitShare peerUid xored = .ok c' ↔
      peerUid ∈ c.participants ∧ peerUid ∉ c.sharesReceived ∧ xored.length = c.payloadLen ∧
        c' = { c with sharesReceived := c.sharesReceived.insert peerUid xored } := by
  unfold submitShare
  by_cases h₁ : peerUid ∈ c.participants
  · by_cases h₂ : peerUid ∈ c.sharesReceived
    · simp [h₁, h₂]
    · by_cases h₃ : xored.length = c.payloadLen
      · simp [h₁, h₂, h₃, eq_comm]
      · simp [h₁, h₂, h₃]
  · simp [h₁]

/-- A submission changes the stored shares only. -/
theorem submitShare_frame {c c' : RoundCollector} {peerUid : String} {xored : Bytes}
    (h : c.submitShare peerUid xored = .ok c') :
    c'.channel = c.channel ∧ c'.roundId = c.roundId ∧ c'.participants = c.participants ∧
      c'.payloadLen = c.payloadLen := by
  obtain ⟨-, -, -, rfl⟩ := submitShare_eq_ok.mp h
  exact ⟨rfl, rfl, rfl, rfl⟩

/-- A share is accepted once from a participant, at the length of the round. -/
theorem WellFormed.submitShare {c c' : RoundCollector} {peerUid : String} {xored : Bytes}
    (hc : c.WellFormed) (h : c.submitShare peerUid xored = .ok c') : c'.WellFormed := by
  obtain ⟨hp, -, hlen, rfl⟩ := submitShare_eq_ok.mp h
  refine ⟨hc.nodup, ?_, ?_⟩
  · intro uid huid
    rcases (AList.mem_insert _).mp huid with rfl | huid
    · exact hp
    · exact hc.keys uid huid
  · intro uid share hs
    change (c.sharesReceived.insert peerUid xored).lookup uid = some share at hs
    rw [HashMap.lookup_insert_ite] at hs
    split at hs
    · obtain rfl := Option.some.inj hs
      exact hlen
    · exact hc.lengths uid share hs

/-- A share that is offered is refused, or stored like any accepted submission. -/
theorem trySubmit_cases (c : RoundCollector) (peerUid : String) (xored : Bytes) :
    c.trySubmit peerUid xored = c ∨
      c.submitShare peerUid xored = .ok (c.trySubmit peerUid xored) := by
  unfold trySubmit
  cases c.submitShare peerUid xored with
  | ok c => exact Or.inr rfl
  | error e => exact Or.inl rfl

/-- A share that is offered changes the stored shares only. -/
theorem trySubmit_frame (c : RoundCollector) (peerUid : String) (xored : Bytes) :
    (c.trySubmit peerUid xored).channel = c.channel ∧
      (c.trySubmit peerUid xored).roundId = c.roundId ∧
      (c.trySubmit peerUid xored).participants = c.participants ∧
      (c.trySubmit peerUid xored).payloadLen = c.payloadLen := by
  rcases c.trySubmit_cases peerUid xored with h | h
  · rw [h]
    exact ⟨rfl, rfl, rfl, rfl⟩
  · exact submitShare_frame h

/-- A share does not change who takes part. -/
theorem participants_trySubmit (c : RoundCollector) (peerUid : String) (xored : Bytes) :
    (c.trySubmit peerUid xored).participants = c.participants :=
  (c.trySubmit_frame peerUid xored).2.2.1

/-- A refused share changes nothing. -/
theorem WellFormed.trySubmit {c : RoundCollector} (hc : c.WellFormed) (peerUid : String)
    (xored : Bytes) : (c.trySubmit peerUid xored).WellFormed := by
  rcases c.trySubmit_cases peerUid xored with h | h
  · rw [h]
    exact hc
  · exact hc.submitShare h

/-- The keys of a well-formed collector are at most its participants, so it is complete exactly
when every participant has submitted. -/
theorem WellFormed.isComplete_iff {c : RoundCollector} (hc : c.WellFormed) :
    c.isComplete = true ↔ ∀ uid ∈ c.participants, uid ∈ c.sharesReceived := by
  have hkeys : c.sharesReceived.keys ⊆ c.participants := fun uid h =>
    hc.keys uid (AList.mem_keys.mpr h)
  have hlen : c.sharesReceived.keys.length = c.sharesReceived.entries.length := by
    rw [AList.keys, List.keys, List.length_map]
  have hsub : c.sharesReceived.keys.Subperm c.participants :=
    (c.sharesReceived.keys_nodup).subperm hkeys
  rw [isComplete, decide_eq_true_iff, ← hlen]
  constructor
  -- as many keys as participants: the duplicate-free keys are a rearrangement of them
  · intro h uid huid
    exact AList.mem_keys.mpr ((hsub.perm_of_length_le h).mem_iff.mpr huid)
  · intro h
    exact (hc.nodup.subperm fun uid huid => AList.mem_keys.mp (h uid huid)).length_le

/-- Exactly `uid` is missing when it has not submitted and everybody else has. -/
theorem WellFormed.missingParticipants_eq_singleton {c : RoundCollector} (hc : c.WellFormed)
    {uid : String} :
    c.missingParticipants = [uid] ↔
      uid ∈ c.participants ∧ uid ∉ c.sharesReceived ∧
        ∀ p ∈ c.participants, p ≠ uid → p ∈ c.sharesReceived := by
  have hmem : ∀ p, p ∈ c.missingParticipants ↔ p ∈ c.participants ∧ p ∉ c.sharesReceived := by
    intro p
    simp [missingParticipants]
  constructor
  · intro h
    have huid := (hmem uid).mp (by simp [h])
    refine ⟨huid.1, huid.2, fun p hp hne => ?_⟩
    by_contra hnot
    have hmissing : p ∈ c.missingParticipants := (hmem p).mpr ⟨hp, hnot⟩
    rw [h, List.mem_singleton] at hmissing
    exact hne hmissing
  · rintro ⟨hp, hnot, hall⟩
    -- two duplicate-free lists with the same members, one of them a singleton
    have hnodup : c.missingParticipants.Nodup := hc.nodup.filter _
    refine List.perm_singleton.mp ((List.perm_ext_iff_of_nodup hnodup (by simp)).mpr fun p => ?_)
    rw [hmem, List.mem_singleton]
    constructor
    · rintro ⟨hp', hnot'⟩
      by_contra hne
      exact hnot' (hall p hp' hne)
    · rintro rfl
      exact ⟨hp, hnot⟩

/-- With words of one length, the copy of the extraction loop overwrites the whole accumulator. -/
theorem foldl_copyFromSlice {n : ℕ} {shares : List Bytes} {result : Bytes}
    (hresult : result.length = n) (hshares : ∀ share ∈ shares, share.length = n) :
    shares.foldl (fun result share => copyFromSlice result 0 (xorBytes result share)) result =
      shares.foldl xorBytes result := by
  induction shares generalizing result with
  | nil => rfl
  | cons share shares ih =>
    obtain ⟨hshare, hshares⟩ := List.forall_mem_cons.mp hshares
    have hlen : (xorBytes result share).length = n := by
      rw [length_xorBytes, hresult, hshare, Nat.max_self]
    have hcopy : copyFromSlice result 0 (xorBytes result share) = xorBytes result share := by
      rw [copyFromSlice, List.drop_eq_nil_of_le]
      · simp
      · omega
    rw [List.foldl_cons, List.foldl_cons, hcopy, ih hlen hshares]

/-- All collected shares have the length of the round. -/
theorem WellFormed.length_of_mem_values {c : RoundCollector} (hc : c.WellFormed) :
    ∀ share ∈ c.sharesReceived.values, share.length = c.payloadLen := by
  intro share hshare
  obtain ⟨⟨uid, s⟩, hp, rfl⟩ := List.mem_map.mp hshare
  exact hc.lengths uid s (HashMap.mem_pairs_iff.mp hp)

/-- The extracted word has the payload length and is the sum of the stored shares. A sum in an
abelian group does not depend on the order in which the hash table is visited. -/
theorem WellFormed.extractMessage_spec {c : RoundCollector} (hc : c.WellFormed) {payload : Bytes}
    (h : c.extractMessage = some payload) :
    payload.length = c.payloadLen ∧
      zeroExt payload = (c.sharesReceived.pairs.map fun p => zeroExt p.2).sum := by
  unfold extractMessage at h
  split at h
  · simp at h
  · obtain rfl := Option.some.inj h
    have hzeros : (List.replicate c.payloadLen (0 : UInt8)).length = c.payloadLen := by simp
    obtain ⟨hlen, hsum⟩ := foldl_xorBytes hzeros hc.length_of_mem_values
    rw [foldl_copyFromSlice hzeros hc.length_of_mem_values]
    refine ⟨hlen, ?_⟩
    rw [hsum, zeroExt_replicate_zero, zero_add, HashMap.values, List.map_map]
    rfl

end RoundCollector

/-! ## The round counter -/

/-- The round state of a node: one monotonic counter and the queue of texts to send. -/
structure RoundTracker where
  currentRoundId : ℕ
  messageQueue : List String

namespace RoundTracker

/-- The counter starts at zero, with an empty queue. -/
def new : RoundTracker := ⟨0, []⟩

/-- Advance to the next round id; the new id is the new counter. -/
def nextRound (t : RoundTracker) : RoundTracker := { t with currentRoundId := t.currentRoundId + 1 }

/-- Accept a round id observed from the network: only the next one is accepted. -/
def markSeen (t : RoundTracker) (roundId : ℕ) : Bool × RoundTracker :=
  if roundId = t.currentRoundId + 1 then (true, { t with currentRoundId := roundId })
  else (false, t)

/-- Queue a text for a later round. -/
def queueMessage (t : RoundTracker) (text : String) : RoundTracker :=
  { t with messageQueue := t.messageQueue ++ [text] }

/-- Take the first queued text. -/
def dequeueMessage (t : RoundTracker) : Option String × RoundTracker :=
  match t.messageQueue with
  | [] => (none, t)
  | text :: rest => (some text, { t with messageQueue := rest })

/-- The counter after it has advanced. -/
@[simp]
theorem nextRound_currentRoundId (t : RoundTracker) :
    t.nextRound.currentRoundId = t.currentRoundId + 1 := rfl

end RoundTracker

/-! ## Round messages -/

/-- The bytes a share signature covers. -/
def shareSignatureMessage (channel : String) (roundId : ℕ) (share : Bytes) : Bytes :=
  shareSigDomain ++ beBytes 4 (asBytes channel).length ++ asBytes channel ++ beBytes 8 roundId ++
    share

/-- Sign a share with the identity key. -/
def signShare (prim : Primitives) (signingKey : Bytes32) (channel : String) (roundId : ℕ)
    (share : Bytes) : Bytes :=
  prim.sign signingKey (shareSignatureMessage channel roundId share)

/-- Verify the signature of a share. -/
def verifyShareSignature (prim : Primitives) (vk : Bytes32) (channel : String) (roundId : ℕ)
    (share signature : Bytes) : Bool :=
  prim.verify vk (shareSignatureMessage channel roundId share) signature

/-- Parse a hexadecimal Ed25519 identity key. -/
def parseVerifyingKey (prim : Primitives) (keyHex : String) : Option Bytes32 :=
  ((hexDecode keyHex).bind toBytes32).filter prim.isVerifyingKey

end ChronoShift
