import ChronoShift.DcNet.Membership

/-!
# The message of a local round

`broadcast_message` simulates a round in one process. Every pair of participants adds one mask to
two of the shares, so the shares sum to zero until the sender adds its message, and to the message
from then on. Its length field says where the message ends.

* `pairwiseShares_sum`: the shares of the participants cancel;
* `F2fDcNetBridge.broadcastMessage_text`: a round that is held returns the text behind its header;
* `F2fDcNetBridge.broadcast_round_trip`: the same for a group with two members that are not
  malicious, in every bridge that can be reached.
-/

namespace ChronoShift

open ToMathlib

/-! ## Masks -/

/-- A share is as long as is asked for. -/
theorem length_expandShare (prim : Primitives) (seed : Bytes) (len : ℕ) :
    (expandShare prim seed len).length = len := by
  rw [expandShare, List.length_take, Nat.min_eq_left]
  exact le_length_blocks (fun _ _ _ => rfl) 0 le_rfl

/-- The pairs are pairs of participants. -/
theorem lt_of_mem_participantPairs {n : ℕ} {p : ℕ × ℕ} (h : p ∈ participantPairs n) :
    p.1 < n ∧ p.2 < n := by
  obtain ⟨i, hi, hp⟩ := List.mem_flatMap.mp h
  obtain ⟨j, hj, rfl⟩ := List.mem_map.mp hp
  rw [List.mem_range'_1] at hj
  rw [List.mem_range] at hi
  dsimp only
  omega

/-! ## Shares -/

/-- The shares of `n` participants, which sum to `word`. -/
structure SharesSum (n payloadLen : ℕ) (shares : List Bytes) (word : ℕ → XorGroup UInt8) :
    Prop where
  length_eq : shares.length = n
  lengths : ∀ share ∈ shares, share.length = payloadLen
  sum_eq : (shares.map zeroExt).sum = word

namespace SharesSum

variable {n payloadLen : ℕ} {shares : List Bytes} {word : ℕ → XorGroup UInt8}

/-- Empty shares sum to nothing. -/
theorem replicate (n payloadLen : ℕ) :
    SharesSum n payloadLen (List.replicate n (List.replicate payloadLen 0)) 0 := by
  refine ⟨List.length_replicate, fun share hshare => ?_, ?_⟩
  · rw [List.eq_of_mem_replicate hshare, List.length_replicate]
  · rw [List.map_replicate, zeroExt_replicate_zero, List.sum_replicate, nsmul_zero]

/-- A word that is added to one of the shares is added to their sum. -/
theorem modify (h : SharesSum n payloadLen shares word) {i : ℕ} (hi : i < n) {added : Bytes}
    (hadded : added.length = payloadLen) :
    SharesSum n payloadLen (shares.modify i (xorBytes · added)) (word + zeroExt added) := by
  refine ⟨(List.length_modify _ _ _).trans h.length_eq, fun share hshare => ?_, ?_⟩
  · obtain ⟨k, hk, rfl⟩ := List.mem_iff_getElem.mp hshare
    rw [List.length_modify] at hk
    rw [List.getElem_modify]
    have hlen := h.lengths _ (List.getElem_mem hk)
    split
    · rw [length_xorBytes, hlen, hadded, Nat.max_self]
    · exact hlen
  · rw [sum_map_modify zeroExt (fun share => zeroExt_xorBytes share added)
      (h.length_eq.symm ▸ hi), h.sum_eq]

/-- The global sum of the shares. -/
theorem foldl_xorBytes (h : SharesSum n payloadLen shares word) :
    (shares.foldl xorBytes (List.replicate payloadLen 0)).length = payloadLen ∧
      zeroExt (shares.foldl xorBytes (List.replicate payloadLen 0)) = word := by
  obtain ⟨hlen, hsum⟩ := ChronoShift.foldl_xorBytes
    (List.length_replicate (a := (0 : UInt8)) (n := payloadLen)) h.lengths
  refine ⟨hlen, ?_⟩
  rw [hsum, zeroExt_replicate_zero, zero_add, h.sum_eq]

end SharesSum

/-- Both participants of a pair add the same mask, so the shares cancel. -/
theorem pairwiseShares_sum (prim : Primitives) (secrets : ℕ → Bytes32) (n payloadLen : ℕ) :
    SharesSum n payloadLen (pairwiseShares prim secrets n payloadLen) 0 := by
  have hpairs : ∀ p ∈ participantPairs n, p.1 < n ∧ p.2 < n :=
    fun p hp => lt_of_mem_participantPairs hp
  have hzero := SharesSum.replicate n payloadLen
  -- the sum is zero before and after each pair
  unfold pairwiseShares
  generalize List.replicate n (List.replicate payloadLen (0 : UInt8)) = shares at hzero
  generalize participantPairs n = pairs at hpairs
  induction pairs generalizing shares with
  | nil => exact hzero
  | cons p pairs ih =>
    obtain ⟨⟨hi, hj⟩, hpairs⟩ := List.forall_mem_cons.mp hpairs
    refine ih _ ?_ hpairs
    have hmask := length_expandShare prim
      (prim.diffieHellman (secrets p.1) (prim.x25519Public (secrets p.2))).toList payloadLen
    have hboth := (hzero.modify hi hmask).modify hj hmask
    rwa [zero_add, word_add_self] at hboth

/-- The text is read up to its length. -/
theorem extractText_payload {text : String} (h : (asBytes text).length < 2 ^ 32) :
    extractText (beBytes 4 (asBytes text).length ++ asBytes text) = text := by
  have hbe : (beBytes 4 (asBytes text).length).length = 4 := length_beBytes _ _
  have hlen : ofBeBytes (beBytes 4 (asBytes text).length) = (asBytes text).length := by
    rw [ofBeBytes_beBytes, Nat.mod_eq_of_lt (by simpa using h)]
  rw [extractText, List.length_append, hbe, if_pos (by omega)]
  dsimp only
  rw [List.take_left' hbe, List.drop_left' hbe, hlen, Nat.add_sub_cancel_left, Nat.min_self,
    List.take_length, fromUtf8Lossy_asBytes]

namespace F2fDcNetBridge

variable {prim : Primitives} {serde : Serde} {env : OpEnv} {b : F2fDcNetBridge}

/-- What a broadcast writes before the text. -/
def roundHeader (b : F2fDcNetBridge) (channel : String) (group : DcGroup) : String :=
  "[DC-Net round #" ++
    toString (((b.channels.lookup channel).map fun ch => ch.roundId + 1).getD 1) ++ " (" ++
    toString group.peerIds.length ++ " parties)] "

/-- A round that is held returns the text. -/
theorem broadcastMessage_text {channel text : String} {group : DcGroup}
    (hgroup : b.groups.lookup channel = some group) (hheld : HoldsRound prim b channel)
    (htext : (asBytes text).length < 2 ^ 32) :
    (b.broadcastMessage prim env channel text).2 = some (b.roundHeader channel group ++ text) := by
  obtain ⟨hsize, hmin, hmem⟩ := (holdsRound_iff hgroup).mp hheld
  unfold broadcastMessage
  rw [hgroup]
  dsimp only
  rw [if_neg (by omega)]
  split
  next g hstart => exact absurd (startRound_eq_none hstart) (by omega)
  next g round hstart =>
    split
    next hidx => exact absurd hmem (List.idxOf?_eq_none_iff.mp hidx)
    next senderIdx hidx =>
      have hsender : senderIdx < group.peerIds.length := (List.idxOf?_eq_some_iff.mp hidx).1
      have hpayload : (beBytes 4 (asBytes text).length ++ asBytes text).length =
          4 + (asBytes text).length := by rw [List.length_append, length_beBytes]
      obtain ⟨hlen, hsum⟩ := ((pairwiseShares_sum prim env.secrets group.peerIds.length
        (4 + (asBytes text).length)).modify hsender hpayload).foldl_xorBytes
      rw [zero_add] at hsum
      have hword := zeroExt_inj_of_length (hlen.trans hpayload.symm) hsum
      rw [hword, extractText_payload htext]
      rfl

/-! ## The size of a group -/

/-- Every group asks for two members, as the bridge creates them. -/
def GroupsOfTwo (b : Bridge) : Prop :=
  ∀ name g, b.groups.lookup name = some g → g.minParticipants = 2

/-- Groups are created for two members at least. -/
theorem groupRule_two : GroupRule fun g => g.minParticipants = 2 := by
  refine ⟨fun _ => rfl, fun g peerId hg => ?_, fun g peerId hg => hg⟩
  unfold DcGroup.join
  split <;> exact hg

/-- Synced trust levels leave the groups alone. -/
theorem groups_syncFriends (now : ℕ) (b : F2fDcNetBridge) (fs : List F2fFriend) :
    (b.syncFriends now fs).1.groups = b.groups := by
  induction fs generalizing b with
  | nil => rfl
  | cons f fs ih =>
    rw [syncFriends]
    dsimp only
    split
    · exact ih _
    · exact ih _

/-- Synced reputations leave the groups alone. -/
theorem groups_syncReputationToTrust (env : OpEnv) (b : F2fDcNetBridge) :
    (b.syncReputationToTrust env).1.groups = b.groups := groups_syncFriends _ _ _

/-- A group is replaced by one that asks for two members as well. -/
theorem GroupsOfTwo.insert {b : Bridge} (h : GroupsOfTwo b) (channel : String) {group : DcGroup}
    (hgroup : group.minParticipants = 2) :
    GroupsOfTwo { b with groups := b.groups.insert channel group } := by
  intro name g hg
  rw [HashMap.lookup_insert_ite] at hg
  split at hg
  · exact Option.some.inj hg ▸ hgroup
  · exact h name g hg

/-- A broadcast does not change how many members a group asks for. -/
theorem GroupsOfTwo.broadcastMessage (h : GroupsOfTwo b.toBridge) (channel text : String) :
    GroupsOfTwo (b.broadcastMessage prim env channel text).1.toBridge := by
  unfold F2fDcNetBridge.broadcastMessage
  split
  · exact h
  next group hgroup =>
    have hstart : ∀ id, (group.startRound id env.now).1.minParticipants = 2 := by
      intro id
      unfold DcGroup.startRound
      dsimp only
      split <;> exact h channel group hgroup
    dsimp only
    split
    · exact h
    · split
      next g hround =>
        refine h.insert channel ?_
        rw [← hstart, hround]
      next g round hround =>
        have hg : g.minParticipants = 2 := by
          rw [← hstart, hround]
        split
        · exact h.insert channel hg
        -- the trust levels that follow the round are no concern of the groups
        · have hfinished := h.insert channel
            ((DcGroup.minParticipants_finishRoundWith g group.peerIds).trans hg)
          intro name g' hg'
          rw [groups_syncReputationToTrust] at hg'
          exact hfinished name g' hg'

/-- No operation and no restart changes how many members a group asks for. -/
theorem Reachable.groupsOfTwo {ok : F2fDcNetBridge → Operation → Prop}
    {okRestore : F2fDcNetBridge → Prop} (h : Reachable prim serde ok okRestore b) :
    GroupsOfTwo b.toBridge := by
  induction h with
  | start myUid => exact fun name g hg => by simp [F2fDcNetBridge.new, Bridge.new] at hg
  | @step b env op _ _ ih =>
    cases op with
    | call c =>
      rw [apply, Bridge.apply_eq]
      exact groupRule_two.applyOps ih _ _
    | applyOpNoLog op => exact groupRule_two.applyOpNoLog ih _ op
    | applySnapshot snap => exact groupRule_two.applySnapshot _ _ snap
    | broadcastMessage channel text => exact ih.broadcastMessage channel text
    | syncReputationToTrust =>
      intro name g hg
      exact ih name g (groups_syncReputationToTrust env b ▸ hg)
    | switchChannel name =>
      rw [apply, Bridge.switchChannel]
      split <;> exact ih
    | _ => exact ih
  | restore fresh _ _ _ _ _ => exact groupRule_two.applySnapshot _ fresh _

/-- If two or more members of the group are not malicious, and we are one of them, a broadcast of a
text below 4 GiB returns the text behind the header of the round. -/
theorem broadcast_round_trip (prim : Primitives) (serde : Serde) (env : OpEnv) {b : F2fDcNetBridge}
    (hreach : Reachable prim serde (fun _ _ => True) (fun _ => True) b) {channel : String}
    {group : DcGroup} (hgroup : b.groups.lookup channel = some group)
    (htwo : 2 ≤ (group.participants.filter (!·.isMalicious)).length)
    (hus : ∃ p ∈ group.participants, p.isMalicious = false ∧ p.peerId = peerIdOf prim b.myUid)
    {text : String} (htext : (asBytes text).length < 2 ^ 32) :
    (b.broadcastMessage prim env channel text).2 = some (b.roundHeader channel group ++ text) := by
  obtain ⟨p, hp, -, hid⟩ := hus
  refine broadcastMessage_text hgroup ((holdsRound_iff hgroup).mpr ⟨?_, ?_, ?_⟩) htext
  · rw [DcGroup.peerIds, List.length_map]
    exact htwo.trans (List.length_filter_le _ _)
  · rw [hreach.groupsOfTwo channel group hgroup]
    exact htwo
  · exact hid ▸ DcGroup.mem_peerIds.mpr ⟨p, hp, rfl⟩

/-- `alice` sends a text with blanks at both ends to `bob`. -/
theorem broadcast_round_trip_blanks :
    (aliceWithBob.broadcastMessage namePrimitives .still "#g" " hi ").2 =
      some "[DC-Net round #1 (2 parties)]  hi " := by
  obtain ⟨group, hgroup⟩ : ∃ group, aliceWithBob.groups.lookup "#g" = some group :=
    Option.isSome_iff_exists.mp (by decide +kernel)
  have hall : ∀ g ∈ aliceWithBob.groups.lookup "#g",
      2 ≤ (g.participants.filter (!·.isMalicious)).length ∧
        (∃ p ∈ g.participants, p.isMalicious = false ∧
          p.peerId = peerIdOf namePrimitives aliceWithBob.myUid) ∧
        aliceWithBob.roundHeader "#g" g = "[DC-Net round #1 (2 parties)] " := by decide +kernel
  obtain ⟨htwo, hus, hheader⟩ := hall group hgroup
  have hreach : Reachable namePrimitives (.ofTable [] []) (fun _ _ => True) (fun _ => True)
      aliceWithBob := reachable_doAll (.start "alice") _
  have htext := broadcast_round_trip namePrimitives (.ofTable [] []) .still hreach hgroup htwo hus
    (by decide +kernel : (asBytes " hi ").length < 2 ^ 32)
  rw [hheader] at htext
  exact htext

end F2fDcNetBridge

end ChronoShift
