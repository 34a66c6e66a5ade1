import ChronoShift.DcNet.Share
import Mathlib.Algebra.BigOperators.Group.Finset.Piecewise
import Mathlib.Data.Sym.Sym2

/-!
# Shares do not tell who sent

A share is built from masks, one for each edge of the participant. This file builds it from any
masks, of which those derived from the edge keys are one case, and shows that the vector of all
shares fits every possible sender: adding the frame to the mask between two members moves the
message from one of them to the other.

* `computeXorShareSecure_eq_with`: the share of the program is built from its derived masks;
* `exists_masks_of_sender`: the shares of one sender are the shares of any other, with one mask
  changed.
-/

namespace ChronoShift

open ToMathlib

/-! ## Shares from given masks -/

/-- The loop over the participants, with the mask for each of them as given. -/
def xorMasksWith (mask : String → Option Bytes) (myUid : String) :
    List String → Bytes → Option Bytes
  | [], output => some output
  | other :: rest, output =>
    if other = myUid then xorMasksWith mask myUid rest output
    else
      match mask other with
      | none => none
      | some share => xorMasksWith mask myUid rest (xorBytes output share)

/-- The share of `compute_xor_share_secure`, with the mask for each participant as given. -/
def computeXorShareWith (prim : Primitives) (mask : String → Option Bytes) (myUid : String)
    (participants : List String) (message : Option Bytes) (payloadLen : ℕ) : Option Bytes :=
  if participants.length < 2 ∨ myUid ∉ participants then none
  else
    match xorMasksWith mask myUid participants (List.replicate payloadLen 0) with
    | none => none
    | some output =>
      match message with
      | none => some output
      | some msg =>
        match padMessage prim msg payloadLen with
        | none => none
        | some padded => some (xorBytes output padded)

theorem xorMasks_eq_with (prim : Primitives) (roundId : ℕ) (myUid : String) (payloadLen : ℕ)
    (edgeKeys : HashMap String Bytes32) (participants : List String) (output : Bytes) :
    xorMasks prim roundId myUid payloadLen edgeKeys participants output =
      xorMasksWith (fun other => (edgeKeys.lookup other).map fun key =>
        derivePairShare prim key.toList roundId (peerIdOf prim myUid) (peerIdOf prim other)
          payloadLen) myUid participants output := by
  induction participants generalizing output with
  | nil => rfl
  | cons other rest ih =>
    rw [xorMasks, xorMasksWith]
    split_ifs with hother
    · exact ih output
    · cases edgeKeys.lookup other with
      | none => rfl
      | some key => exact ih _

/-- The program's share is built from the masks that it derives from its edge keys. -/
theorem computeXorShareSecure_eq_with (prim : Primitives) (roundId : ℕ) (myUid : String)
    (participants : List String) (message : Option Bytes) (payloadLen : ℕ)
    (edgeKeys : HashMap String Bytes32) :
    computeXorShareSecure prim roundId myUid participants message payloadLen edgeKeys =
      computeXorShareWith prim (fun other => (edgeKeys.lookup other).map fun key =>
        derivePairShare prim key.toList roundId (peerIdOf prim myUid) (peerIdOf prim other)
          payloadLen) myUid participants message payloadLen := by
  rw [computeXorShareWith, ← xorMasks_eq_with]
  rfl

/-- One mask of the payload length for every unordered pair. -/
abbrev MaskAssignment (payloadLen : ℕ) := Sym2 String → Vector UInt8 payloadLen

namespace MaskAssignment

variable {prim : Primitives} {payloadLen : ℕ}

/-- The masks of one participant. -/
def masksOf (P : MaskAssignment payloadLen) (myUid other : String) : Option Bytes :=
  some (P s(myUid, other)).toList

/-- The shares of all participants, when `sender` embeds a message and everybody else is
neutral. -/
def shares (prim : Primitives) (P : MaskAssignment payloadLen) (participants : List String)
    (sender : String) (msg : Bytes) : List (Option Bytes) :=
  participants.map fun uid => computeXorShareWith prim (P.masksOf uid) uid participants
    (if uid = sender then some msg else none) payloadLen

/-- The loop adds the masks of the other participants to its accumulator. -/
theorem xorMasksWith_masksOf (P : MaskAssignment payloadLen) (myUid : String)
    (participants : List String) (output : Bytes) (hlen : output.length = payloadLen) :
    ∃ out, xorMasksWith (P.masksOf myUid) myUid participants output = some out ∧
      out.length = payloadLen ∧
      zeroExt out = zeroExt output + ((participants.filter (· ≠ myUid)).map fun other =>
        zeroExt (P s(myUid, other)).toList).sum := by
  induction participants generalizing output with
  | nil => exact ⟨output, rfl, hlen, by simp⟩
  | cons other rest ih =>
    by_cases hother : other = myUid
    · obtain ⟨out, hout, hspec⟩ := ih output hlen
      refine ⟨out, ?_, ?_⟩
      · rw [xorMasksWith, if_pos hother, hout]
      · rwa [List.filter_cons_of_neg (by simpa using hother)]
    · obtain ⟨out, hout, hlen', hsum⟩ := ih (xorBytes output (P s(myUid, other)).toList)
        (by rw [length_xorBytes, hlen, Vector.length_toList, Nat.max_self])
      refine ⟨out, ?_, hlen', ?_⟩
      · rw [xorMasksWith, if_neg hother]
        exact hout
      · rw [List.filter_cons_of_pos (by simpa using hother), List.map_cons, List.sum_cons, hsum,
          zeroExt_xorBytes, add_assoc]

/-- A share from an assignment: the sum of the masks and of the framed message. -/
theorem computeXorShareWith_masksOf (P : MaskAssignment payloadLen) {participants : List String}
    (hnodup : participants.Nodup) (htwo : 2 ≤ participants.length) {uid : String}
    (huid : uid ∈ participants) {message : Option Bytes}
    (hfit : ∀ msg, message = some msg → 36 + msg.length ≤ payloadLen) :
    ∃ share, computeXorShareWith prim (P.masksOf uid) uid participants message payloadLen =
        some share ∧
      share.length = payloadLen ∧
      zeroExt share = ∑ other ∈ participants.toFinset.erase uid,
          zeroExt (P s(uid, other)).toList + zeroExt (messageWord prim message payloadLen) := by
  obtain ⟨output, houtput, hlen, hsum⟩ := P.xorMasksWith_masksOf uid participants
    (List.replicate payloadLen 0) List.length_replicate
  rw [zeroExt_replicate_zero, zero_add, sum_map_filter_ne hnodup] at hsum
  rw [computeXorShareWith, if_neg (by rw [not_or, not_not]; exact ⟨by omega, huid⟩), houtput]
  cases message with
  | none =>
    refine ⟨output, rfl, hlen, ?_⟩
    rw [hsum, messageWord]
    exact (add_zero _).symm
  | some msg =>
    obtain ⟨padded, hpadded⟩ := Option.isSome_iff_exists.mp
      (@padMessage_isSome prim msg payloadLen |>.mpr (hfit msg rfl))
    refine ⟨xorBytes output padded, by simp [hpadded], ?_, ?_⟩
    · rw [length_xorBytes, hlen, length_padMessage hpadded, Nat.max_self]
    · rw [zeroExt_xorBytes, hsum, messageWord]
      simp [hpadded]

/-! ## Moving the message to another member -/

/-- The assignment with a frame added to the mask of one pair. -/
def addFrame (P : MaskAssignment payloadLen) (pair : Sym2 String) (frame : Bytes)
    (hframe : frame.length = payloadLen) : MaskAssignment payloadLen :=
  Function.update P pair ⟨(xorBytes (P pair).toList frame).toArray, by
    rw [List.size_toArray, length_xorBytes, hframe, Vector.length_toList, Nat.max_self]⟩

theorem zeroExt_addFrame (P : MaskAssignment payloadLen) (pair pair' : Sym2 String) {frame : Bytes}
    (hframe : frame.length = payloadLen) :
    zeroExt (P.addFrame pair frame hframe pair').toList =
      zeroExt (P pair').toList + if pair' = pair then zeroExt frame else 0 := by
  rw [addFrame, Function.update_apply]
  split_ifs with hpair
  · rw [← zeroExt_xorBytes, hpair]
    rfl
  · rw [add_zero]

/-- The frame reaches the shares of the two members of the pair. -/
theorem sum_addFrame (P : MaskAssignment payloadLen) {members : Finset String} {s s' : String}
    (hs : s ∈ members) (hs' : s' ∈ members) (hne : s ≠ s') {frame : Bytes}
    (hframe : frame.length = payloadLen) (uid : String) :
    ∑ other ∈ members.erase uid, zeroExt (P.addFrame s(s, s') frame hframe s(uid, other)).toList =
      ∑ other ∈ members.erase uid, zeroExt (P s(uid, other)).toList +
        if uid = s ∨ uid = s' then zeroExt frame else 0 := by
  simp only [zeroExt_addFrame, Finset.sum_add_distrib]
  congr 1
  -- one term of the sum is on the pair, if the participant belongs to it
  by_cases huid : uid = s
  · subst huid
    simp only [Sym2.congr_right, true_or, if_true]
    rw [Finset.sum_ite_eq', if_pos (Finset.mem_erase.mpr ⟨hne.symm, hs'⟩)]
  · by_cases huid' : uid = s'
    · subst huid'
      simp only [Sym2.eq_swap (a := s), Sym2.congr_right, or_true, if_true]
      rw [Finset.sum_ite_eq', if_pos (Finset.mem_erase.mpr ⟨hne, hs⟩)]
    · rw [if_neg (not_or.mpr ⟨huid, huid'⟩)]
      refine Finset.sum_eq_zero fun other _ => if_neg fun hpair => ?_
      rcases Sym2.eq_iff.mp hpair with ⟨heq, -⟩ | ⟨heq, -⟩
      · exact huid heq
      · exact huid' heq

/-- What a participant embeds fits if the message of the sender does. -/
theorem fits_of_sender {msg : Bytes} (hfit : 36 + msg.length ≤ payloadLen) (sender uid : String) :
    ∀ msg', (if uid = sender then some msg else none) = some msg' →
      36 + msg'.length ≤ payloadLen := by
  intro msg' h
  split_ifs at h
  obtain rfl := Option.some.inj h
  exact hfit

theorem zeroExt_messageWord_of_sender {msg frame : Bytes}
    (hpad : padMessage prim msg payloadLen = some frame) (sender uid : String) :
    zeroExt (messageWord prim (if uid = sender then some msg else none) payloadLen) =
      if uid = sender then zeroExt frame else 0 := by
  split_ifs
  · rw [messageWord, Option.bind_some, hpad, Option.getD_some]
  · exact zeroExt_replicate_zero 0

/-- Every share exists. -/
theorem isSome_of_mem_shares (P : MaskAssignment payloadLen) {participants : List String}
    (hnodup : participants.Nodup) (htwo : 2 ≤ participants.length) {sender : String} {msg : Bytes}
    (hfit : 36 + msg.length ≤ payloadLen) :
    ∀ share ∈ P.shares prim participants sender msg, share.isSome = true := by
  intro share hshare
  obtain ⟨uid, huid, rfl⟩ := List.mem_map.mp hshare
  obtain ⟨share, hshare, -⟩ := @computeXorShareWith_masksOf prim _ P _ hnodup htwo uid huid _
    (fits_of_sender hfit sender uid)
  rw [hshare]
  rfl

/-- Adding the frame to the mask between two members moves the message from one to the other. -/
theorem shares_addFrame (P : MaskAssignment payloadLen) {participants : List String}
    (hnodup : participants.Nodup) {s s' : String} (hs : s ∈ participants) (hs' : s' ∈ participants)
    (hne : s ≠ s') {msg frame : Bytes} (hfit : 36 + msg.length ≤ payloadLen)
    (hpad : padMessage prim msg payloadLen = some frame) :
    P.shares prim participants s msg =
      (P.addFrame s(s, s') frame (length_padMessage hpad)).shares prim participants s' msg := by
  have htwo : 2 ≤ participants.length := by
    have hsub : [s, s'].Subperm participants := by
      refine List.Nodup.subperm (by simpa using hne) fun uid huid => ?_
      rcases List.mem_pair.mp huid with rfl | rfl
      · exact hs
      · exact hs'
    exact hsub.length_le
  refine List.map_congr_left fun uid huid => ?_
  obtain ⟨share, hshare, hlen, hsum⟩ := @computeXorShareWith_masksOf prim _ P _ hnodup htwo uid
    huid _ (fits_of_sender hfit s uid)
  obtain ⟨share', hshare', hlen', hsum'⟩ := @computeXorShareWith_masksOf prim _
    (P.addFrame s(s, s') frame (length_padMessage hpad)) _ hnodup htwo uid huid _
    (fits_of_sender hfit s' uid)
  rw [hshare, hshare']
  -- both shares have the payload length and the same sum
  refine congrArg some (zeroExt_inj_of_length (hlen.trans hlen'.symm) ?_)
  rw [hsum, hsum', zeroExt_messageWord_of_sender hpad, zeroExt_messageWord_of_sender hpad,
    sum_addFrame P (List.mem_toFinset.mpr hs) (List.mem_toFinset.mpr hs') hne, add_assoc]
  congr 1
  -- the frame is added for both of them, and cancels where it is embedded
  by_cases hsender : uid = s
  · subst hsender
    rw [if_pos rfl, if_pos (Or.inl rfl), if_neg hne, add_zero]
  · by_cases hsender' : uid = s'
    · subst hsender'
      rw [if_neg hsender, if_pos (Or.inr rfl), if_pos rfl, word_add_self]
    · rw [if_neg hsender, if_neg (not_or.mpr ⟨hsender, hsender'⟩), if_neg hsender', add_zero]

/-- Anonymity of the shares. For all distinct participants, any two of them, any message that fits
and any masks, one of which belongs to every unordered pair, there are masks that differ on the two
members' pair only, with which the shares are the same when the other one of them embeds the
message. With at least two participants, every one of the shares exists. -/
theorem exists_masks_of_sender (prim : Primitives) (participants : List String)
    (hnodup : participants.Nodup) (s s' : String) (hs : s ∈ participants) (hs' : s' ∈ participants)
    (msg : Bytes) (payloadLen : ℕ) (hfit : 36 + msg.length ≤ payloadLen)
    (P : MaskAssignment payloadLen) :
    ∃ P' : MaskAssignment payloadLen, (∀ pair, pair ≠ s(s, s') → P' pair = P pair) ∧
      P.shares prim participants s msg = P'.shares prim participants s' msg ∧
      (2 ≤ participants.length →
        ∀ share ∈ P.shares prim participants s msg, share.isSome = true) := by
  by_cases hne : s = s'
  · subst hne
    exact ⟨P, fun _ _ => rfl, rfl, fun htwo => P.isSome_of_mem_shares hnodup htwo hfit⟩
  · obtain ⟨frame, hpad⟩ := Option.isSome_iff_exists.mp
      (@padMessage_isSome prim msg payloadLen |>.mpr hfit)
    exact ⟨P.addFrame s(s, s') frame (length_padMessage hpad),
      fun pair hpair => Function.update_of_ne hpair _ _,
      P.shares_addFrame hnodup hs hs' hne hfit hpad,
      fun htwo => P.isSome_of_mem_shares hnodup htwo hfit⟩

/-- One mask for the pairs of `a`, and another one for the other pairs. -/
def sampleMasks : MaskAssignment 40 := fun pair =>
  if "a" ∈ pair then .replicate 40 7 else .replicate 40 13

/-- Three members and a message. With the same masks the shares would tell its sender. -/
theorem exists_masks_of_sender_three :
    sampleMasks.shares .const ["a", "b", "c"] "a" [104, 105] ≠
        sampleMasks.shares .const ["a", "b", "c"] "b" [104, 105] ∧
      ∃ P' : MaskAssignment 40, (∀ pair, pair ≠ s("a", "b") → P' pair = sampleMasks pair) ∧
        sampleMasks.shares .const ["a", "b", "c"] "a" [104, 105] =
          P'.shares .const ["a", "b", "c"] "b" [104, 105] := by
  refine ⟨by decide +kernel, ?_⟩
  obtain ⟨P', hP', hshares, -⟩ := exists_masks_of_sender Primitives.const ["a", "b", "c"]
    (by decide) "a" "b" (by decide) (by decide) [104, 105] 40 (by decide) sampleMasks
  exact ⟨P', hP', hshares⟩

end MaskAssignment

end ChronoShift
