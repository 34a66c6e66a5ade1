import ChronoShift.DcNet.RoundNetwork

/-!
# The masks of one share

A share is the exclusive or of one mask for each entry of a list of participants, and a mask is
expanded in blocks that a counter of one byte tells apart. Entries of the list can repeat, and so
can the counter.

* `share_masks_once_iff`: when every other participant's mask is in the share once;
* `keystream_fresh_iff`: the payload lengths at which the blocks of a mask are independent.
-/

namespace ChronoShift

open ToMathlib

/-! ## Repeated participants -/

section MasksOnce

variable (prim : Primitives) (roundId : ℕ) (myUid : String) (payloadLen : ℕ)
  (edgeKeys : HashMap String Bytes32) (participants : List String) (message : Option Bytes)

/-- The share is the framed message, or zeros, with the mask of every other uid of the list in it
once. -/
def MasksOnce (share : Bytes) : Prop :=
  share.length = payloadLen ∧
    zeroExt share =
      ∑ other ∈ participants.toFinset.erase myUid,
        zeroExt (edgeMask prim roundId myUid payloadLen edgeKeys other) +
      zeroExt (messageWord prim message payloadLen)

/-- The masks of the other uids that occur an even number of times are together zero. -/
def EvenMasksCancel : Prop :=
  ∑ other ∈ participants.toFinset.erase myUid with Even (participants.count other),
    zeroExt (edgeMask prim roundId myUid payloadLen edgeKeys other) = 0

variable {myUid participants} in
theorem count_others {other : String} (h : other ≠ myUid) :
    (participants.filter (· ≠ myUid)).count other = participants.count other :=
  List.count_filter (decide_eq_true h)

/-- For every list of participants that is accepted, the share has every other uid's mask in it once
if and only if the masks of the other uids that occur an even number of times cancel. -/
theorem share_masks_once_iff (share : Bytes)
    (h : computeXorShareSecure prim roundId myUid participants message payloadLen edgeKeys =
      some share) :
    MasksOnce prim roundId myUid payloadLen edgeKeys participants message share ↔
      EvenMasksCancel prim roundId myUid payloadLen edgeKeys participants := by
  obtain ⟨hlen, hshare⟩ := computeXorShareSecure_eq_some h
  have hothers :
      (participants.filter (· ≠ myUid)).toFinset = participants.toFinset.erase myUid := by
    ext other
    simp [and_comm]
  have heven : (participants.filter (· ≠ myUid)).toFinset.filter
        (fun other => Even ((participants.filter (· ≠ myUid)).count other)) =
      (participants.toFinset.erase myUid).filter fun other => Even (participants.count other) := by
    rw [hothers]
    refine Finset.filter_congr fun other hother => ?_
    rw [count_others (Finset.ne_of_mem_erase hother)]
  rw [MasksOnce, EvenMasksCancel, hshare, add_left_inj, ← hothers,
    sum_map_eq_sum_toFinset_iff word_add_self, heven, hothers]
  exact and_iff_right hlen

/-- If every other uid occurs an even number of times, the share is the framed message itself. -/
theorem share_unmasked (share : Bytes)
    (h : computeXorShareSecure prim roundId myUid participants message payloadLen edgeKeys =
      some share)
    (heven : ∀ other ∈ participants, other ≠ myUid → Even (participants.count other)) :
    zeroExt share = zeroExt (messageWord prim message payloadLen) := by
  obtain ⟨-, hshare⟩ := computeXorShareSecure_eq_some h
  rw [hshare, sum_map_eq_sum_odd word_add_self, Finset.sum_eq_zero, zero_add]
  intro other hother
  obtain ⟨hmem, hodd⟩ := Finset.mem_filter.mp hother
  obtain ⟨hmem, hne⟩ := List.mem_filter.mp (List.mem_toFinset.mp hmem)
  rw [count_others (of_decide_eq_true hne)] at hodd
  exact absurd (heven other hmem (of_decide_eq_true hne)) hodd

end MasksOnce

/-- Primitives whose masks are all one. -/
def onesPrimitives : Primitives where
  __ := Primitives.const
  hkdf _ _ _ := .replicate 32 1

/-- The edge key of `b`. -/
def bobEdge : HashMap String Bytes32 := AList.singleton "b" (.replicate 32 0)

/-- Without repetitions, the mask of `b` is in the share of `a`. -/
theorem share_masks_once_pair :
    MasksOnce onesPrimitives 1 "a" 4 bobEdge ["a", "b"] none [1, 1, 1, 1] := by
  refine (share_masks_once_iff onesPrimitives 1 "a" 4 bobEdge ["a", "b"] none _ (by decide)).mpr ?_
  have hnone : ((["a", "b"].toFinset.erase "a").filter fun other =>
      Even (["a", "b"].count other)) = ∅ := by decide
  rw [EvenMasksCancel, hnone, Finset.sum_empty]

/-- If `b` is listed twice, its mask drops out. -/
theorem repeated_mask_drops_out :
    ¬ ∀ (prim : Primitives) (roundId : ℕ) (myUid : String) (payloadLen : ℕ)
      (edgeKeys : HashMap String Bytes32) (participants : List String) (message : Option Bytes)
      (share : Bytes),
      computeXorShareSecure prim roundId myUid participants message payloadLen edgeKeys =
        some share →
      MasksOnce prim roundId myUid payloadLen edgeKeys participants message share := by
  intro hclaim
  have hsum := (hclaim onesPrimitives 1 "a" 4 bobEdge ["a", "b", "b"] none [0, 0, 0, 0]
    (by decide)).2
  have hset : ["a", "b", "b"].toFinset.erase "a" = {"b"} := by decide
  rw [hset, Finset.sum_singleton] at hsum
  have hbyte : (0 : UInt8) = 1 := congrFun hsum 0
  exact absurd hbyte (by decide)

/-! ## Repeated blocks -/

/-- The counters of the passes of the expansion loop. -/
def blockCounters : ℕ → UInt8 → ℕ → List UInt8
  | 0, _, _ => []
  | fuel + 1, block, missing =>
    if missing = 0 then [] else block :: blockCounters fuel (block + 1) (missing - 32)

/-- The info strings that the blocks of a mask are expanded from. -/
def pairInfos (roundId : ℕ) (peerA peerB : Bytes32) (len : ℕ) : List Bytes :=
  (blockCounters len 0 len).map fun block => pairInfo roundId peerA peerB ++ [block]

/-- No two blocks of a mask are expanded from the same info string, and every pass can count up. -/
def KeystreamFresh (roundId : ℕ) (peerA peerB : Bytes32) (len : ℕ) : Prop :=
  (pairInfos roundId peerA peerB len).Nodup ∧
    ∀ block ∈ blockCounters len 0 len, block.toNat + 1 < 2 ^ 8

/-- The loop appends one block for each counter. -/
theorem expandBlocks_eq_flatMap (expand : Bytes → Bytes32) (info : Bytes) (fuel : ℕ)
    (block : UInt8) (missing : ℕ) :
    expandBlocks expand info fuel block missing =
      (blockCounters fuel block missing).flatMap fun block =>
        (expand (info ++ [block])).toList := by
  induction fuel generalizing block missing with
  | zero => rfl
  | succ fuel ih =>
    rw [expandBlocks, blockCounters]
    split
    · rfl
    · rw [List.flatMap_cons, ih]

/-- A mask is made of the blocks of its info strings. -/
theorem derivePairShare_eq_flatMap (prim : Primitives) (edgeKey : Bytes) (roundId : ℕ)
    (peerA peerB : Bytes32) (len : ℕ) :
    derivePairShare prim edgeKey roundId peerA peerB len =
      ((pairInfos roundId peerA peerB len).flatMap fun info =>
        (prim.hkdf none edgeKey info).toList).take len := by
  rw [derivePairShare, expandBlocks_eq_flatMap, pairInfos, List.flatMap_map]

/-- The counters are the first numbers, wrapped. -/
theorem blockCounters_eq_map (fuel start missing : ℕ) (h : missing ≤ fuel) :
    blockCounters fuel (.ofNat start) missing =
      (List.range' start ((missing + 31) / 32)).map UInt8.ofNat := by
  induction fuel generalizing start missing with
  | zero =>
    obtain rfl := Nat.le_zero.mp h
    rfl
  | succ fuel ih =>
    rw [blockCounters]
    split
    next hmissing =>
      subst hmissing
      rfl
    next hmissing =>
      have hpasses : (missing + 31) / 32 = (missing - 32 + 31) / 32 + 1 := by omega
      have hnext : UInt8.ofNat start + 1 = .ofNat (start + 1) := (UInt8.ofNat_add start 1).symm
      rw [hpasses, List.range'_succ, List.map_cons, hnext, ih (start + 1) _ (by omega)]

theorem mem_blockCounters {len : ℕ} {block : UInt8} :
    block ∈ blockCounters len 0 len ↔ ∃ i, 32 * i < len ∧ UInt8.ofNat i = block := by
  rw [show (0 : UInt8) = .ofNat 0 from rfl, blockCounters_eq_map len 0 len le_rfl, List.mem_map]
  refine exists_congr fun i => and_congr_left fun _ => ?_
  rw [List.mem_range'_1]
  omega

/-- Among up to 256 blocks, no info string repeats. -/
theorem nodup_pairInfos_iff {roundId : ℕ} {peerA peerB : Bytes32} {len : ℕ} :
    (pairInfos roundId peerA peerB len).Nodup ↔ len ≤ 8192 := by
  have hinj : Function.Injective fun block : UInt8 => pairInfo roundId peerA peerB ++ [block] := by
    intro a b hab
    exact (List.cons.inj (List.append_cancel_left hab)).1
  rw [pairInfos, List.nodup_map_iff hinj, show (0 : UInt8) = .ofNat 0 from rfl,
    blockCounters_eq_map len 0 len le_rfl]
  constructor
  · intro hnodup
    by_contra hlong
    -- the counter comes back to zero
    have hzero : (0 : ℕ) = 256 := List.inj_on_of_nodup_map hnodup
      (List.mem_range'_1.mpr ⟨le_rfl, by omega⟩) (List.mem_range'_1.mpr ⟨by omega, by omega⟩) rfl
    cases hzero
  · intro hshort
    refine List.Nodup.map_on (fun i hi j hj hij => ?_) List.nodup_range'
    rw [List.mem_range'_1] at hi hj
    have hmod := congrArg UInt8.toNat hij
    rw [UInt8.toNat_ofNat', UInt8.toNat_ofNat'] at hmod
    omega

/-- Up to 255 blocks, the counter stays below its maximum. -/
theorem keystreamFresh_iff {roundId : ℕ} {peerA peerB : Bytes32} {len : ℕ} :
    KeystreamFresh roundId peerA peerB len ↔ len ≤ 8160 := by
  rw [KeystreamFresh, nodup_pairInfos_iff]
  constructor
  · rintro ⟨-, hcount⟩
    by_contra hlong
    have hlast := hcount 255 (mem_blockCounters.mpr ⟨255, by omega, rfl⟩)
    exact absurd hlast (by decide)
  · intro hshort
    refine ⟨by omega, fun block hblock => ?_⟩
    obtain ⟨i, hi, rfl⟩ := mem_blockCounters.mp hblock
    rw [UInt8.toNat_ofNat']
    omega

/-- For every announced payload length, the blocks of each mask of the collector's length are
expanded from different info strings, without an overflow of the counter, if and only if the
announced length is at most 8160. -/
theorem keystream_fresh_iff (channel : String) (roundId : ℕ) (participants : List String)
    (deadlineSecs announced now : ℕ) (peerA peerB : Bytes32) :
    KeystreamFresh roundId peerA peerB
        (RoundCollector.new channel roundId participants deadlineSecs announced now).payloadLen ↔
      announced ≤ 8160 := by
  rw [keystreamFresh_iff, RoundCollector.new]
  dsimp only
  omega

/-- With the longest payload, the counter wraps and info strings repeat. -/
theorem keystream_repeats :
    ¬ ∀ (channel : String) (roundId : ℕ) (participants : List String)
      (deadlineSecs announced now : ℕ) (peerA peerB : Bytes32),
      KeystreamFresh roundId peerA peerB
        (RoundCollector.new channel roundId participants deadlineSecs announced
          now).payloadLen := by
  intro hclaim
  have hfresh := hclaim "c" 1 [] 0 65536 0 (.replicate 32 0) (.replicate 32 0)
  exact absurd (nodup_pairInfos_iff.mp hfresh.1) (by decide)

end ChronoShift
