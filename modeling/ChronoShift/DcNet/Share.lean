import ChronoShift.Identity
import ChronoShift.ToMathlib.XorSum
import Mathlib.Data.List.GetD
import Mathlib.Data.UInt

/-!
# Shares of a DC-Net round

The share construction of `dcnet/mod.rs` and `dcnet/round_network.rs`: pairwise masks expanded
from friend-edge keys, the checksummed message frame, and the share a participant contributes.

* `derivePairShare_comm`: both ends of an edge derive the same mask;
* `unpadMessage_padMessage`: the frame codec returns the message;
* `computeXorShareSecure_eq_some`: a share is the sum of its masks and of the framed message,
  in the exclusive-or group of zero-extended words;
* `computeXorShareSecure_isSome`: with a key for every other participant and a message that
  fits, the share exists.
-/

namespace ChronoShift

open ToMathlib

/-- Bytewise exclusive or, as long as the longer operand; a missing byte counts as zero. -/
def xorBytes (a b : Bytes) : Bytes := List.zipWithAll (fun va vb => va.getD 0 ^^^ vb.getD 0) a b

@[simp]
theorem length_xorBytes (a b : Bytes) : (xorBytes a b).length = max a.length b.length := by
  unfold xorBytes
  induction a generalizing b with
  | nil => simp
  | cons x a ih =>
    cases b with
    | nil => simp
    | cons y b => simp [ih]

/-- `xorBytes` is addition in the exclusive-or group of zero-extended words. -/
theorem zeroExt_xorBytes (a b : Bytes) : zeroExt (xorBytes a b) = zeroExt a + zeroExt b := by
  ext i
  show (xorBytes a b).getD i 0 = a.getD i 0 ^^^ b.getD i 0
  rw [xorBytes, List.getD_eq_getElem?_getD, List.getElem?_zipWithAll,
    List.getD_eq_getElem?_getD, List.getD_eq_getElem?_getD]
  -- past the end of an operand both sides read a zero
  rcases a[i]? with _ | va <;> rcases b[i]? with _ | vb <;> rfl

/-- Adding words of one length to an accumulator of that length. -/
theorem foldl_xorBytes {n : ℕ} {words : List Bytes} {acc : Bytes} (hacc : acc.length = n)
    (hwords : ∀ word ∈ words, word.length = n) :
    (words.foldl xorBytes acc).length = n ∧
      zeroExt (words.foldl xorBytes acc) = zeroExt acc + (words.map zeroExt).sum := by
  induction words generalizing acc with
  | nil => simp [hacc]
  | cons word words ih =>
    obtain ⟨hword, hwords⟩ := List.forall_mem_cons.mp hwords
    have hlen : (xorBytes acc word).length = n := by
      rw [length_xorBytes, hacc, hword, Nat.max_self]
    obtain ⟨ihlen, ihsum⟩ := ih hlen hwords
    refine ⟨ihlen, ?_⟩
    rw [List.foldl_cons, ihsum, zeroExt_xorBytes, List.map_cons, List.sum_cons, add_assoc]

/-! ## Pairwise masks -/

/-- Domain separator of the pairwise masks. -/
def pairShareDomain : Bytes := asBytes "chrono-dcnet-pair-v1"

/-- The two peer ids in ascending order, so that both ends use one order. -/
def sortPeers (peerA peerB : Bytes32) : Bytes32 × Bytes32 :=
  if peerA.toList < peerB.toList then (peerA, peerB) else (peerB, peerA)

/-- The HKDF info of an edge in one round, without the block counter. -/
def pairInfo (roundId : ℕ) (peerA peerB : Bytes32) : Bytes :=
  pairShareDomain ++ beBytes 8 roundId ++ (sortPeers peerA peerB).1.toList ++
    (sortPeers peerA peerB).2.toList

/-- The expansion loop: 32-byte blocks until none of the `missing` bytes is missing. The block
counter is a `u8` that wraps. `fuel` bounds the number of passes. -/
def expandBlocks (expand : Bytes → Bytes32) (info : Bytes) : ℕ → UInt8 → ℕ → Bytes
  | 0, _, _ => []
  | fuel + 1, block, missing =>
    if missing = 0 then []
    else
      (expand (info ++ [block])).toList ++
        expandBlocks expand info fuel (block + 1) (missing - 32)

/-- The mask of one friend edge in one round, truncated to `len` bytes. -/
def derivePairShare (prim : Primitives) (edgeKey : Bytes) (roundId : ℕ)
    (peerA peerB : Bytes32) (len : ℕ) : Bytes :=
  (expandBlocks (prim.hkdf none edgeKey) (pairInfo roundId peerA peerB) len 0 len).take len

/-- A loop that appends 32 bytes in every pass needs no more than `missing` passes. -/
theorem le_length_blocks {γ : Type} {blocks : ℕ → γ → ℕ → Bytes} {block : γ → Bytes32}
    {next : γ → γ} (hstep : ∀ fuel counter missing, blocks (fuel + 1) counter missing =
      if missing = 0 then []
      else (block counter).toList ++ blocks fuel (next counter) (missing - 32))
    {fuel missing : ℕ} (counter : γ) (h : missing ≤ fuel) :
    missing ≤ (blocks fuel counter missing).length := by
  induction fuel generalizing counter missing with
  | zero => omega
  | succ fuel ih =>
    rw [hstep]
    split
    · omega
    · have hrest := @ih (missing - 32) (next counter) (by omega)
      rw [List.length_append, Vector.length_toList]
      omega

/-- A mask has the requested length. -/
@[simp]
theorem length_derivePairShare (prim : Primitives) (edgeKey : Bytes) (roundId : ℕ)
    (peerA peerB : Bytes32) (len : ℕ) :
    (derivePairShare prim edgeKey roundId peerA peerB len).length = len := by
  rw [derivePairShare, List.length_take, Nat.min_eq_left]
  exact le_length_blocks (fun _ _ _ => rfl) 0 le_rfl

theorem sortPeers_comm (peerA peerB : Bytes32) : sortPeers peerA peerB = sortPeers peerB peerA := by
  unfold sortPeers
  by_cases h : peerA.toList < peerB.toList
  · rw [if_pos h, if_neg (List.lt_asymm h)]
  · by_cases h' : peerB.toList < peerA.toList
    · rw [if_neg h, if_pos h']
    -- neither is smaller, so the two ids are the same
    · rw [Vector.toList_inj.mp (List.le_antisymm h' h)]

/-- Both ends of an edge derive the same mask. -/
theorem derivePairShare_comm (prim : Primitives) (edgeKey : Bytes) (roundId : ℕ)
    (peerA peerB : Bytes32) (len : ℕ) :
    derivePairShare prim edgeKey roundId peerA peerB len =
      derivePairShare prim edgeKey roundId peerB peerA len := by
  rw [derivePairShare, derivePairShare, pairInfo, pairInfo, sortPeers_comm]

/-! ## Message frames -/

/-- Frame a message inside the fixed payload:
`[4-byte length][32-byte SHA-256 of the message][message][zeros]`. -/
def padMessage (prim : Primitives) (msg : Bytes) (payloadLen : ℕ) : Option Bytes :=
  let frameLen := 36 + msg.length
  if payloadLen < frameLen then none
  else
    let padded := List.replicate payloadLen 0
    let padded := copyFromSlice padded 0 (beBytes 4 msg.length)
    let padded := copyFromSlice padded 4 (prim.sha256 msg).toList
    some (copyFromSlice padded 36 msg)

/-- Read a frame back, checking its length field and its checksum. -/
def unpadMessage (prim : Primitives) (padded : Bytes) : Option Bytes :=
  if padded.length < 36 then none
  else
    let len := ofBeBytes (padded.take 4)
    if len > padded.length - 36 then none
    else
      let msg := (padded.drop 36).take len
      if (prim.sha256 msg).toList ≠ (padded.drop 4).take 32 then none else some msg

/-- The frame, written out. -/
theorem padMessage_eq_some {prim : Primitives} {msg : Bytes} {payloadLen : ℕ}
    (h : 36 + msg.length ≤ payloadLen) :
    padMessage prim msg payloadLen =
      some (beBytes 4 msg.length ++ (prim.sha256 msg).toList ++ msg ++
        List.replicate (payloadLen - (36 + msg.length)) 0) := by
  obtain ⟨k, rfl⟩ := Nat.exists_eq_add_of_le h
  have hbe : (beBytes 4 msg.length).length = 4 := length_beBytes _ _
  have hsha : (prim.sha256 msg).toList.length = 32 := Vector.length_toList
  -- the zeroed buffer, cut where the three slices are written
  have hcut : List.replicate (36 + msg.length + k) (0 : UInt8) =
      [] ++ List.replicate 4 0 ++
        (List.replicate 32 0 ++ (List.replicate msg.length 0 ++ List.replicate k 0)) := by
    rw [List.nil_append, List.replicate_append_replicate, List.replicate_append_replicate,
      List.replicate_append_replicate]
    congr 1
    omega
  rw [padMessage, if_neg (by omega), Nat.add_sub_cancel_left]
  dsimp only
  rw [hcut, copyFromSlice_append List.length_nil (by simp), List.nil_append, ← List.append_assoc,
    copyFromSlice_append hbe (by simp), ← List.append_assoc,
    copyFromSlice_append (by simp) (by simp)]

/-- A frame exists exactly for the messages that fit. -/
theorem padMessage_isSome {prim : Primitives} {msg : Bytes} {payloadLen : ℕ} :
    (padMessage prim msg payloadLen).isSome ↔ 36 + msg.length ≤ payloadLen := by
  by_cases h : 36 + msg.length ≤ payloadLen
  · simp [padMessage_eq_some h, h]
  · simp [padMessage, h, Nat.lt_of_not_le h]

theorem length_padMessage {prim : Primitives} {msg padded : Bytes} {payloadLen : ℕ}
    (h : padMessage prim msg payloadLen = some padded) : padded.length = payloadLen := by
  have hfit := padMessage_isSome.mp (by rw [h]; rfl)
  rw [padMessage_eq_some hfit] at h
  obtain rfl := Option.some.inj h
  simp only [List.length_append, length_beBytes, Vector.length_toList, List.length_replicate]
  omega

/-- Unframing a frame gives the message, for messages whose length fits the length field. -/
theorem unpadMessage_padMessage {prim : Primitives} {msg padded : Bytes} {payloadLen : ℕ}
    (h : padMessage prim msg payloadLen = some padded) (hlen : msg.length < 2 ^ 32) :
    unpadMessage prim padded = some msg := by
  have hfit := padMessage_isSome.mp (by rw [h]; rfl)
  have hpl := length_padMessage h
  rw [padMessage_eq_some hfit] at h
  obtain rfl := Option.some.inj h
  have hbe : (beBytes 4 msg.length).length = 4 := length_beBytes _ _
  have hsha : (prim.sha256 msg).toList.length = 32 := Vector.length_toList
  -- the length field is exact, since the length fits four bytes
  have htake : ofBeBytes (beBytes 4 msg.length) = msg.length := by
    rw [ofBeBytes_beBytes, Nat.mod_eq_of_lt (by simpa using hlen)]
  -- cut the frame at its field boundaries; the checksum is that of the message read
  rw [unpadMessage, if_neg (by omega), hpl]
  dsimp only
  rw [List.append_assoc, List.append_assoc, List.take_left' hbe, List.drop_left' hbe,
    List.take_left' hsha, ← List.append_assoc (beBytes 4 msg.length),
    List.drop_left' (by rw [List.length_append, hbe, hsha]), htake, if_neg (by omega),
    List.take_left, if_neg (by simp)]

/-! ## Participant shares -/

/-- The 32-byte peer id of a uid. -/
def peerIdOf (prim : Primitives) (uid : String) : Bytes32 := prim.sha256 (asBytes uid)

/-- The loop over the participants: XOR in the mask of every other participant, refusing when an
edge key is missing. -/
def xorMasks (prim : Primitives) (roundId : ℕ) (myUid : String) (payloadLen : ℕ)
    (edgeKeys : HashMap String Bytes32) : List String → Bytes → Option Bytes
  | [], output => some output
  | other :: rest, output =>
    if other = myUid then xorMasks prim roundId myUid payloadLen edgeKeys rest output
    else
      match edgeKeys.lookup other with
      -- without the key the participant would have to leave the edge unmasked
      | none => none
      | some key =>
        xorMasks prim roundId myUid payloadLen edgeKeys rest
          (xorBytes output (derivePairShare prim key.toList roundId (peerIdOf prim myUid)
            (peerIdOf prim other) payloadLen))

/-- A participant's share of a round: the XOR of its pairwise masks, and of the framed message if
it has one. `none` when the participant cannot take part securely. -/
def computeXorShareSecure (prim : Primitives) (roundId : ℕ) (myUid : String)
    (participants : List String) (message : Option Bytes) (payloadLen : ℕ)
    (edgeKeys : HashMap String Bytes32) : Option Bytes :=
  if participants.length < 2 ∨ myUid ∉ participants then none
  else
    match xorMasks prim roundId myUid payloadLen edgeKeys participants
      (List.replicate payloadLen 0) with
    | none => none
    | some output =>
      match message with
      | none => some output
      | some msg =>
        match padMessage prim msg payloadLen with
        | none => none
        | some padded => some (xorBytes output padded)

/-- The most bytes that a `Vec` can hold: `isize::MAX` of a 64-bit target. -/
def maxVecLen : ℕ := 2 ^ 63 - 1

/-- `compute_xor_share_secure` passes its first check, and then panics in `vec![0u8; payload_len]`.
`computeXorShareSecure` describes the calls that return. -/
def SharePanics (myUid : String) (participants : List String) (payloadLen : ℕ) : Prop :=
  2 ≤ participants.length ∧ myUid ∈ participants ∧ maxVecLen < payloadLen

instance (myUid : String) (participants : List String) (payloadLen : ℕ) :
    Decidable (SharePanics myUid participants payloadLen) :=
  inferInstanceAs (Decidable (_ ∧ _))

/-- The mask `myUid` uses for `other`; empty without an edge key. -/
def edgeMask (prim : Primitives) (roundId : ℕ) (myUid : String) (payloadLen : ℕ)
    (edgeKeys : HashMap String Bytes32) (other : String) : Bytes :=
  match edgeKeys.lookup other with
  | none => []
  | some key =>
    derivePairShare prim key.toList roundId (peerIdOf prim myUid) (peerIdOf prim other) payloadLen

/-- The framed message of a sender, and the zero word of everybody else. -/
def messageWord (prim : Primitives) (message : Option Bytes) (payloadLen : ℕ) : Bytes :=
  ((message.bind fun msg => padMessage prim msg payloadLen).getD [])

section Loop

variable {prim : Primitives} {roundId : ℕ} {myUid : String} {payloadLen : ℕ}
  {edgeKeys : HashMap String Bytes32}

theorem xorMasks_isSome (participants : List String) (output : Bytes) :
    (xorMasks prim roundId myUid payloadLen edgeKeys participants output).isSome ↔
      ∀ other ∈ participants, other ≠ myUid → other ∈ edgeKeys := by
  induction participants generalizing output with
  | nil => simp [xorMasks]
  | cons other rest ih =>
    rw [xorMasks, List.forall_mem_cons]
    by_cases ho : other = myUid
    · rw [if_pos ho, ih]
      simp [ho]
    · rw [if_neg ho]
      cases hk : edgeKeys.lookup other with
      | none => simp [ho, AList.lookup_eq_none.mp hk]
      | some key =>
        have hmem : other ∈ edgeKeys := HashMap.mem_iff_exists_lookup.mpr ⟨key, hk⟩
        simp [ih, hmem]

/-- Loop invariant of `xorMasks`: the length is kept, and the masks of the other participants are
added to the accumulator. -/
theorem xorMasks_spec (participants : List String) (output out : Bytes)
    (hlen : output.length = payloadLen)
    (h : xorMasks prim roundId myUid payloadLen edgeKeys participants output = some out) :
    out.length = payloadLen ∧
      zeroExt out = zeroExt output + ((participants.filter (· ≠ myUid)).map fun other =>
        zeroExt (edgeMask prim roundId myUid payloadLen edgeKeys other)).sum := by
  induction participants generalizing output with
  | nil =>
    obtain rfl := Option.some.inj h
    simp [hlen]
  | cons other rest ih =>
    rw [xorMasks] at h
    by_cases ho : other = myUid
    · rw [if_pos ho] at h
      rw [List.filter_cons_of_neg (by simpa using ho)]
      exact ih output hlen h
    · rw [if_neg ho] at h
      cases hk : edgeKeys.lookup other with
      | none => simp [hk] at h
      | some key =>
        simp only [hk] at h
        -- the rest of the loop starts from the accumulator with the mask of `other` added
        obtain ⟨hlen', hsum⟩ := ih _ (by simp [hlen]) h
        refine ⟨hlen', ?_⟩
        rw [List.filter_cons_of_pos (by simpa using ho), List.map_cons, List.sum_cons, hsum,
          zeroExt_xorBytes, add_assoc, edgeMask, hk]

/-- A group of two or more has another member. -/
theorem exists_other {participants : List String} (hnodup : participants.Nodup)
    (hlen : 2 ≤ participants.length) (myUid : String) : ∃ other ∈ participants, other ≠ myUid := by
  obtain ⟨other, hother, hne⟩ := Finset.exists_mem_ne
    (by rwa [List.toFinset_card_of_nodup hnodup]) myUid
  exact ⟨other, List.mem_toFinset.mp hother, hne⟩

/-- A share exists exactly when the participant is one of at least two, has an edge key for every
other participant, and its message, if any, fits the payload. -/
theorem computeXorShareSecure_isSome {participants : List String} {message : Option Bytes} :
    (computeXorShareSecure prim roundId myUid participants message payloadLen edgeKeys).isSome ↔
      2 ≤ participants.length ∧ myUid ∈ participants ∧
        (∀ other ∈ participants, other ≠ myUid → other ∈ edgeKeys) ∧
        ∀ msg, message = some msg → 36 + msg.length ≤ payloadLen := by
  rw [computeXorShareSecure]
  by_cases hc : participants.length < 2 ∨ myUid ∉ participants
  · rw [if_pos hc]
    simp only [Option.isSome_none, Bool.false_eq_true, false_iff]
    rintro ⟨h2, hmem, -⟩
    rcases hc with hc | hc
    · omega
    · exact hc hmem
  · rw [if_neg hc]
    rw [not_or, not_not, not_lt] at hc
    rw [← @xorMasks_isSome prim roundId myUid payloadLen edgeKeys participants
      (List.replicate payloadLen 0)]
    cases hx : xorMasks prim roundId myUid payloadLen edgeKeys participants
      (List.replicate payloadLen 0) with
    | none => simp
    | some output =>
      cases message with
      | none => simp [hc]
      | some msg =>
        -- the masks are there, so the share exists exactly when the frame does
        have hfit := @padMessage_isSome prim msg payloadLen
        cases hp : padMessage prim msg payloadLen with
        | none =>
          rw [hp] at hfit
          simpa [hp, hc] using hfit
        | some padded =>
          rw [hp] at hfit
          simpa [hp, hc] using hfit

/-- Where the share exists, only its length can make the call panic. -/
theorem sharePanics_iff {participants : List String} {message : Option Bytes} {share : Bytes}
    (h : computeXorShareSecure prim roundId myUid participants message payloadLen edgeKeys =
      some share) :
    SharePanics myUid participants payloadLen ↔ maxVecLen < payloadLen := by
  obtain ⟨hlen, hmem, -⟩ := computeXorShareSecure_isSome.mp (Option.isSome_of_eq_some h)
  exact ⟨fun hpanic => hpanic.2.2, fun hlong => ⟨hlen, hmem, hlong⟩⟩

/-- A share has the payload length and is, in the exclusive-or group, the sum of the masks of the
other participants and of the sender's frame. -/
theorem computeXorShareSecure_eq_some {participants : List String} {message : Option Bytes}
    {share : Bytes}
    (h : computeXorShareSecure prim roundId myUid participants message payloadLen edgeKeys =
      some share) :
    share.length = payloadLen ∧
      zeroExt share =
        ((participants.filter (· ≠ myUid)).map fun other =>
          zeroExt (edgeMask prim roundId myUid payloadLen edgeKeys other)).sum +
        zeroExt (messageWord prim message payloadLen) := by
  rw [computeXorShareSecure] at h
  split at h
  · simp at h
  · cases hx : xorMasks prim roundId myUid payloadLen edgeKeys participants
      (List.replicate payloadLen 0) with
    | none => simp [hx] at h
    | some output =>
      -- the loop starts from the zeroed buffer, the zero of the group
      obtain ⟨hlen, hsum⟩ := xorMasks_spec participants _ output (by simp) hx
      rw [zeroExt_replicate_zero, zero_add] at hsum
      cases message with
      | none =>
        simp only [hx] at h
        obtain rfl := Option.some.inj h
        refine ⟨hlen, ?_⟩
        rw [hsum, messageWord]
        exact (add_zero _).symm
      | some msg =>
        cases hp : padMessage prim msg payloadLen with
        | none => simp [hx, hp] at h
        | some padded =>
          simp only [hx, hp] at h
          obtain rfl := Option.some.inj h
          refine ⟨by simp [hlen, length_padMessage hp], ?_⟩
          rw [zeroExt_xorBytes, hsum, messageWord]
          simp [hp]

end Loop

end ChronoShift
