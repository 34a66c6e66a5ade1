import ChronoShift.DcNet.RoundNetwork

/-!
# Pairwise masks cancel

The correctness of one DC-Net round. When the edge keys are symmetric, every unordered pair of
participants contributes one mask to exactly two shares, so the sum of all shares is the sum of
the embedded messages (`sum_shares`), and a complete collector extracts it
(`RoundCollector.extractMessage_eq_messages`). With a single sender, that is the sender's frame
(`RoundCollector.unpad_extractMessage`).

The participants may hold the participant list in different orders, which is what a retried
round does.
-/

namespace ChronoShift

open ToMathlib

/-- Every two members hold the same edge key for each other. -/
def SymmetricKeys (participants : List String) (edgeKeys : String → HashMap String Bytes32) :
    Prop :=
  ∀ i ∈ participants, ∀ j ∈ participants, i ≠ j →
    ∃ key, (edgeKeys i).lookup j = some key ∧ (edgeKeys j).lookup i = some key

section Shares

variable {prim : Primitives} {roundId payloadLen : ℕ} {participants : List String}
  {edgeKeys : String → HashMap String Bytes32}

/-- With symmetric keys, both ends of an edge use the same mask. -/
theorem edgeMask_comm (hsym : SymmetricKeys participants edgeKeys) {i j : String}
    (hi : i ∈ participants) (hj : j ∈ participants) (hne : i ≠ j) :
    edgeMask prim roundId i payloadLen (edgeKeys i) j =
      edgeMask prim roundId j payloadLen (edgeKeys j) i := by
  obtain ⟨key, hij, hji⟩ := hsym i hi j hj hne
  rw [edgeMask, edgeMask, hij, hji]
  exact derivePairShare_comm _ _ _ _ _ _

/-- With symmetric keys, every member can compute its share of a message that fits. -/
theorem computeXorShareSecure_isSome_of_symmetric (hsym : SymmetricKeys participants edgeKeys)
    (hlen : 2 ≤ participants.length) {i : String} (hi : i ∈ participants) {message : Option Bytes}
    (hfit : ∀ msg, message = some msg → 36 + msg.length ≤ payloadLen) :
    (computeXorShareSecure prim roundId i participants message payloadLen (edgeKeys i)).isSome := by
  refine computeXorShareSecure_isSome.mpr ⟨hlen, hi, fun other ho hne => ?_, hfit⟩
  obtain ⟨key, hkey, -⟩ := hsym i hi other ho hne.symm
  exact HashMap.mem_iff_exists_lookup.mpr ⟨key, hkey⟩

variable {lists : String → List String} {message : String → Option Bytes} {share : String → Bytes}

/-- With symmetric keys, all members can compute their shares of messages that fit. -/
theorem exists_shares (prim : Primitives) (roundId : ℕ)
    (hsym : SymmetricKeys participants edgeKeys) (hlen : 2 ≤ participants.length)
    (hfit : ∀ i msg, message i = some msg → 36 + msg.length ≤ payloadLen) :
    ∃ share : String → Bytes, ∀ i ∈ participants, computeXorShareSecure prim roundId i participants
      (message i) payloadLen (edgeKeys i) = some (share i) := by
  have hsome : ∀ i, ∃ share, i ∈ participants → computeXorShareSecure prim roundId i participants
      (message i) payloadLen (edgeKeys i) = some share := by
    intro i
    by_cases hi : i ∈ participants
    · obtain ⟨share, hshare⟩ := Option.isSome_iff_exists.mp
        (@computeXorShareSecure_isSome_of_symmetric prim roundId _ _ _ hsym hlen _ hi _ (hfit i))
      exact ⟨share, fun _ => hshare⟩
    · exact ⟨[], fun h => absurd h hi⟩
  choose share hshare using hsome
  exact ⟨share, hshare⟩

/-- All masks cancel: the shares of all members sum to the embedded messages. -/
theorem sum_shares (hnodup : participants.Nodup) (hsym : SymmetricKeys participants edgeKeys)
    (hlists : ∀ i ∈ participants, (lists i).Perm participants)
    (hshare : ∀ i ∈ participants, computeXorShareSecure prim roundId i (lists i) (message i)
      payloadLen (edgeKeys i) = some (share i)) :
    (participants.map fun i => zeroExt (share i)).sum =
      (participants.map fun i => zeroExt (messageWord prim (message i) payloadLen)).sum := by
  -- one member's share as a sum over the other members, in the common order
  have hone : ∀ i ∈ participants.toFinset, zeroExt (share i) =
      ∑ j ∈ participants.toFinset.erase i,
          zeroExt (edgeMask prim roundId i payloadLen (edgeKeys i) j) +
        zeroExt (messageWord prim (message i) payloadLen) := by
    intro i hi
    rw [List.mem_toFinset] at hi
    obtain ⟨-, hsum⟩ := computeXorShareSecure_eq_some (hshare i hi)
    rw [hsum, ← sum_map_filter_ne hnodup]
    congr 1
    exact (((hlists i hi).filter _).map _).sum_eq
  -- the double sum of the masks vanishes, since both ends of an edge use one mask
  rw [← List.sum_toFinset _ hnodup, ← List.sum_toFinset _ hnodup, Finset.sum_congr rfl hone,
    Finset.sum_add_distrib, sum_sum_erase_eq_zero word_add_self, zero_add]
  intro i hi j hj hne
  rw [edgeMask_comm hsym (List.mem_toFinset.mp hi) (List.mem_toFinset.mp hj) hne]

/-- When only `sender` embeds a message, the messages sum to its frame. -/
theorem sum_messageWord_of_single (hnodup : participants.Nodup) {sender : String}
    (hsender : sender ∈ participants)
    (hothers : ∀ i ∈ participants, i ≠ sender → message i = none) :
    (participants.map fun i => zeroExt (messageWord prim (message i) payloadLen)).sum =
      zeroExt (messageWord prim (message sender) payloadLen) := by
  rw [← List.sum_toFinset _ hnodup]
  refine Finset.sum_eq_single_of_mem sender (List.mem_toFinset.mpr hsender) fun i hi hne => ?_
  rw [hothers i (List.mem_toFinset.mp hi) hne]
  exact zeroExt_replicate_zero 0

end Shares

namespace RoundCollector

variable {prim : Primitives} {c : RoundCollector} {participants : List String}
  {share : String → Bytes}

/-- The stored shares of a collector that holds exactly the shares of `participants`. -/
theorem sum_pairs_eq (hc : c.WellFormed) (hnodup : participants.Nodup)
    (hset : ∀ uid, uid ∈ c.participants ↔ uid ∈ participants)
    (hlookup : ∀ i ∈ participants, c.sharesReceived.lookup i = some (share i)) :
    (c.sharesReceived.pairs.map fun p => zeroExt p.2).sum =
      (participants.map fun i => zeroExt (share i)).sum := by
  -- the table and the list of all shares are duplicate-free with the same members
  have hperm : c.sharesReceived.pairs.Perm (participants.map fun i => (i, share i)) := by
    refine (List.perm_ext_iff_of_nodup (List.Nodup.of_map _ (HashMap.nodup_keys _))
      (List.Nodup.of_map Prod.fst (by simpa [Function.comp_def] using hnodup))).mpr ?_
    rintro ⟨uid, s⟩
    rw [HashMap.mem_pairs_iff, List.mem_map]
    constructor
    · intro hs
      have hmem : uid ∈ participants := (hset uid).mp
        (hc.keys uid (HashMap.mem_iff_exists_lookup.mpr ⟨s, hs⟩))
      rw [hlookup uid hmem] at hs
      exact ⟨uid, hmem, by rw [Option.some.inj hs]⟩
    · rintro ⟨i, hi, heq⟩
      obtain ⟨rfl, rfl⟩ := Prod.mk.inj heq
      exact hlookup i hi
  rw [(hperm.map _).sum_eq, List.map_map]
  rfl

/-- A collector that holds a share of every participant extracts the sum of the messages. -/
theorem extractMessage_eq_messages {edgeKeys : String → HashMap String Bytes32}
    {lists : String → List String} {message : String → Option Bytes}
    (hc : c.WellFormed) (hnodup : participants.Nodup) (hne : participants ≠ [])
    (hset : ∀ uid, uid ∈ c.participants ↔ uid ∈ participants)
    (hsym : SymmetricKeys participants edgeKeys)
    (hlists : ∀ i ∈ participants, (lists i).Perm participants)
    (hshare : ∀ i ∈ participants, computeXorShareSecure prim c.roundId i (lists i) (message i)
      c.payloadLen (edgeKeys i) = some (share i))
    (hlookup : ∀ i ∈ participants, c.sharesReceived.lookup i = some (share i)) :
    ∃ payload, c.extractMessage = some payload ∧ payload.length = c.payloadLen ∧
      zeroExt payload =
        (participants.map fun i => zeroExt (messageWord prim (message i) c.payloadLen)).sum := by
  -- some share is stored, so the extraction does not give up
  obtain ⟨i, hi⟩ := List.exists_mem_of_ne_nil participants hne
  have hentries : c.sharesReceived.entries.isEmpty = false := by
    have hmem := HashMap.mem_pairs_iff.mpr (hlookup i hi)
    rw [List.isEmpty_eq_false_iff]
    intro hnil
    rw [HashMap.pairs, hnil] at hmem
    simp at hmem
  obtain ⟨payload, hpayload⟩ : ∃ payload, c.extractMessage = some payload := by
    rw [extractMessage, hentries]
    exact ⟨_, rfl⟩
  obtain ⟨hlen, hsum⟩ := hc.extractMessage_spec hpayload
  exact ⟨payload, hpayload, hlen, by
    rw [hsum, sum_pairs_eq hc hnodup hset hlookup, sum_shares hnodup hsym hlists hshare]⟩

/-- With one sender, a collector that holds a share of every participant extracts the sender's
message. -/
theorem unpad_extractMessage {edgeKeys : String → HashMap String Bytes32} {sender : String}
    {msg : Bytes} (lists : String → List String) (message : String → Option Bytes)
    (hc : c.WellFormed) (hnodup : participants.Nodup)
    (hset : ∀ uid, uid ∈ c.participants ↔ uid ∈ participants)
    (hsym : SymmetricKeys participants edgeKeys)
    (hlists : ∀ i ∈ participants, (lists i).Perm participants)
    (hshare : ∀ i ∈ participants, computeXorShareSecure prim c.roundId i (lists i) (message i)
      c.payloadLen (edgeKeys i) = some (share i))
    (hlookup : ∀ i ∈ participants, c.sharesReceived.lookup i = some (share i))
    (hsender : sender ∈ participants) (hmsg : message sender = some msg)
    (hothers : ∀ i ∈ participants, i ≠ sender → message i = none)
    (hfit : 36 + msg.length ≤ c.payloadLen) (hlen32 : msg.length < 2 ^ 32) :
    c.extractMessage.bind (unpadMessage prim) = some msg := by
  obtain ⟨payload, hpayload, hlen, hsum⟩ := extractMessage_eq_messages hc hnodup
    (List.ne_nil_of_mem hsender) hset hsym hlists hshare hlookup
  obtain ⟨padded, hpadded⟩ := Option.isSome_iff_exists.mp (padMessage_isSome.mpr hfit)
  rw [sum_messageWord_of_single hnodup hsender hothers, hmsg, messageWord, Option.bind_some,
    hpadded, Option.getD_some] at hsum
  -- payload and frame have one length, so equal extensions make them equal
  have heq : payload = padded :=
    zeroExt_inj_of_length (by rw [hlen, length_padMessage hpadded]) hsum
  rw [hpayload, Option.bind_some, heq]
  exact unpadMessage_padMessage hpadded hlen32

/-! ## Submitting a whole round -/

/-- Submit a list of shares, stopping at the first refusal. -/
def submitAll (c : RoundCollector) (submissions : List (String × Bytes)) :
    Except String RoundCollector :=
  submissions.foldlM (fun c p => c.submitShare p.1 p.2) c

/-- Submitting the shares of distinct participants, all of the payload length, is accepted and
stores exactly these shares. -/
theorem submitAll_new {channel : String} {roundId deadlineSecs payloadLen now : ℕ}
    (hshare : ∀ i ∈ participants, (share i).length =
      (new channel roundId participants deadlineSecs payloadLen now).payloadLen)
    {submitted : List String} (hnodup : submitted.Nodup) (hsub : submitted ⊆ participants) :
    ∃ c, submitAll (new channel roundId participants deadlineSecs payloadLen now)
        (submitted.map fun uid => (uid, share uid)) = .ok c ∧ c.WellFormed ∧
      (c.roundId = roundId ∧ c.participants = participants.dedup ∧ c.payloadLen =
        (new channel roundId participants deadlineSecs payloadLen now).payloadLen) ∧
      ∀ uid, c.sharesReceived.lookup uid = if uid ∈ submitted then some (share uid) else none := by
  -- induction on the list of submissions, last submission first
  induction submitted using List.reverseRecOn with
  | nil =>
    exact ⟨_, rfl, wellFormed_new _ _ _ _ _ _, ⟨rfl, rfl, rfl⟩, fun uid => by simp [new]⟩
  | append_singleton front last ih =>
    have hfront : front.Nodup := (List.nodup_append.mp hnodup).1
    have hlast : last ∉ front := fun hmem =>
      (List.nodup_append.mp hnodup).2.2 last hmem last (by simp) rfl
    have hlastmem : last ∈ participants := hsub (by simp)
    obtain ⟨c, hok, hwf, hc, hlookup⟩ := ih hfront fun uid h => hsub (by simp [h])
    -- `last` is a participant without a stored share, so its submission is accepted
    have hsubmit : c.submitShare last (share last) =
        .ok { c with sharesReceived := c.sharesReceived.insert last (share last) } := by
      refine submitShare_eq_ok.mpr ⟨?_, ?_, ?_, rfl⟩
      · rw [hc.2.1]
        exact List.mem_dedup.mpr hlastmem
      · rw [← AList.lookup_eq_none, hlookup, if_neg hlast]
      · rw [hc.2.2]
        exact hshare last hlastmem
    refine ⟨_, ?_, hwf.submitShare hsubmit, hc, fun uid => ?_⟩
    · rw [submitAll] at hok ⊢
      rw [List.map_append, List.foldlM_append, hok]
      simp only [List.map_singleton, List.foldlM_cons, List.foldlM_nil, bind_pure]
      exact hsubmit
    · show (c.sharesReceived.insert last (share last)).lookup uid = _
      rw [HashMap.lookup_insert_ite, hlookup]
      by_cases huid : uid = last
      · simp [huid]
      · simp [huid]

/-- A collector that holds the shares of the first members of `order` is complete exactly when it
holds all of them. -/
theorem WellFormed.isComplete_iff_eq (hc : c.WellFormed) {order submitted : List String}
    (hset : ∀ uid, uid ∈ c.participants ↔ uid ∈ order) (horder : order.Nodup)
    (hpre : submitted <+: order)
    (hlookup : ∀ uid, c.sharesReceived.lookup uid =
      if uid ∈ submitted then some (share uid) else none) :
    c.isComplete = true ↔ submitted = order := by
  rw [hc.isComplete_iff]
  constructor
  -- a complete collector has a share of everybody, so nobody is left to submit
  · intro hall
    refine hpre.eq_of_length_le (horder.subperm fun uid huid => ?_).length_le
    have hmem := hall uid ((hset uid).mpr huid)
    by_contra hnot
    rw [← AList.lookup_isSome, hlookup, if_neg hnot] at hmem
    simp at hmem
  · rintro rfl uid huid
    rw [← AList.lookup_isSome, hlookup, if_pos ((hset uid).mp huid)]
    rfl

/-- One DC-Net round, end to end. If the members of a group with symmetric edge keys compute
their shares, `sender` embedding `msg` and the others nothing, then the shares exist, they are
accepted in whatever order they are submitted, the collector is complete exactly after the last
submission, and unframing the extracted payload gives `msg`. -/
theorem round_extracts_message (prim : Primitives) (participants : List String)
    (hnodup : participants.Nodup) (hlen : 2 ≤ participants.length) (roundId : ℕ)
    (edgeKeys : String → HashMap String Bytes32) (hsym : SymmetricKeys participants edgeKeys)
    (sender : String) (hsender : sender ∈ participants) (msg : Bytes) (payloadLen : ℕ)
    (hfit : 36 + msg.length ≤ payloadLen) (hmax : payloadLen ≤ 8160)
    (channel : String) (deadlineSecs now : ℕ) (order : List String)
    (horder : order.Perm participants) :
    ∃ share : String → Bytes,
      (∀ i ∈ participants, computeXorShareSecure prim roundId i participants
        (if i = sender then some msg else none) payloadLen (edgeKeys i) = some (share i)) ∧
      ∀ submitted, submitted <+: order →
        ∃ c, submitAll (new channel roundId participants deadlineSecs payloadLen now)
            (submitted.map fun uid => (uid, share uid)) = .ok c ∧
          (c.isComplete = true ↔ submitted = order) ∧
          (submitted = order → c.extractMessage.bind (unpadMessage prim) = some msg) := by
  -- the clamp of the collector does not touch the payload lengths considered here
  have hclamp : (new channel roundId participants deadlineSecs payloadLen now).payloadLen =
      payloadLen := by
    show max 4 (min payloadLen 65536) = payloadLen
    omega
  have hfits : ∀ i m, (if i = sender then some msg else none) = some m →
      36 + m.length ≤ payloadLen := by
    intro i m hm
    split at hm
    · rw [← Option.some.inj hm]
      exact hfit
    · simp at hm
  obtain ⟨share, hshare⟩ := exists_shares prim roundId hsym hlen hfits
  refine ⟨share, hshare, fun submitted hpre => ?_⟩
  have hordernodup : order.Nodup := horder.nodup_iff.mpr hnodup
  obtain ⟨c, hok, hwf, hc, hlookup⟩ := submitAll_new
    (fun i hi => (computeXorShareSecure_eq_some (hshare i hi)).1.trans hclamp.symm)
    (hordernodup.sublist hpre.sublist)
    (fun uid huid => horder.mem_iff.mp (hpre.subset huid))
  have hset : ∀ uid, uid ∈ c.participants ↔ uid ∈ participants := by
    intro uid
    rw [hc.2.1]
    exact List.mem_dedup
  have hpayload : c.payloadLen = payloadLen := hc.2.2.trans hclamp
  have hcomplete : c.isComplete = true ↔ submitted = order :=
    hwf.isComplete_iff_eq (fun uid => (hset uid).trans horder.mem_iff.symm) hordernodup hpre hlookup
  refine ⟨c, hok, hcomplete, fun heq => ?_⟩
  have hstored : ∀ i ∈ participants, c.sharesReceived.lookup i = some (share i) := by
    intro i hi
    rw [hlookup, if_pos (heq ▸ horder.mem_iff.mpr hi)]
  refine unpad_extractMessage (fun _ => participants)
    (fun i => if i = sender then some msg else none) hwf hnodup hset hsym
    (fun i _ => List.Perm.refl _) ?_ hstored hsender (if_pos rfl) (fun i _ hne => if_neg hne)
    (by omega) (by omega)
  rw [hc.1, hpayload]
  exact hshare

/-- The round of `round_extracts_message` at two members, with `alice` sending one byte. -/
theorem round_extracts_message_two :
    ∃ share : String → Bytes,
      (∀ i ∈ ["alice", "bob"], computeXorShareSecure .const 7 i ["alice", "bob"]
        (if i = "alice" then some [42] else none) 64
        (if i = "alice" then (∅ : HashMap String Bytes32).insert "bob" (.replicate 32 1)
          else (∅ : HashMap String Bytes32).insert "alice" (.replicate 32 1)) = some (share i)) ∧
      ∀ submitted, submitted <+: ["bob", "alice"] →
        ∃ c, submitAll (new "#g" 7 ["alice", "bob"] 10 64 0)
            (submitted.map fun uid => (uid, share uid)) = .ok c ∧
          (c.isComplete = true ↔ submitted = ["bob", "alice"]) ∧
          (submitted = ["bob", "alice"] →
            c.extractMessage.bind (unpadMessage .const) = some [42]) := by
  refine round_extracts_message .const ["alice", "bob"] (by decide) (by decide) 7
    (fun i => if i = "alice" then (∅ : HashMap String Bytes32).insert "bob" (.replicate 32 1)
      else (∅ : HashMap String Bytes32).insert "alice" (.replicate 32 1))
    ?_ "alice" (by decide) [42] 64 (by decide) (by decide) "#g" 10 0 ["bob", "alice"] (by decide)
  intro i hi j hj hne
  refine ⟨.replicate 32 1, ?_⟩
  simp only [List.mem_cons, List.not_mem_nil, or_false] at hi hj
  rcases hi with rfl | rfl <;> rcases hj with rfl | rfl
  · exact absurd rfl hne
  · decide
  · decide
  · exact absurd rfl hne

end RoundCollector

end ChronoShift
