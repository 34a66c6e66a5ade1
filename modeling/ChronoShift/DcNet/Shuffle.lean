import ChronoShift.Net.SecureFrames

/-!
# The verifiable shuffle

Messages are submitted to the slots of a round. Each is encrypted under a key of its own, which the
collecting node keeps, and goes with its checksum. A slot that does not open, or whose plaintext
does not have the checksum, is blamed on the node that submitted it (`dcnet/shuffle.rs`).

Slots are appended to a list without bound, and their keys are stored under 16-bit indices.

* `ShuffleCommitment.Collected`: the slots and keys of a list of submissions;
* `ShuffleCommitment.decryptSlot_of_collected`: the key that a slot is opened with;
* `ShuffleCommitment.unblamed_iff`: when nobody is blamed for what was submitted.
-/

namespace ChronoShift

open ToMathlib

/-- An encrypted message, and the checksum it is verified by. -/
structure ShuffleSlot where
  index : ℕ
  ciphertext : Bytes
  commitment : Bytes
  nodeId : Bytes
  deriving DecidableEq

/-- The slots of a round, with the keys that are not sent. -/
structure ShuffleCommitment where
  roundId : ℕ
  nodeCount : ℕ
  slots : List ShuffleSlot
  merkleRoot : Bytes
  slotKeys : HashMap ℕ Bytes32

/-- What a node is blamed for. -/
inductive BlameVerdict where
  | offline (nodeId : Bytes)
  | cheating (nodeId : Bytes) (slot : ℕ)
  | clean
  deriving DecidableEq

/-- The arguments of `submit`, with the key and the nonce that are drawn at random. -/
structure Submission where
  nodeId : Bytes
  message : Bytes
  key : Bytes32
  nonce : Vector UInt8 12
  deriving DecidableEq

namespace ShuffleCommitment

def new (roundId nodeCount : ℕ) : ShuffleCommitment where
  roundId := roundId
  nodeCount := nodeCount
  slots := []
  merkleRoot := List.replicate 32 0
  slotKeys := ∅

def updateMerkleRoot (prim : Primitives) (sc : ShuffleCommitment) : ShuffleCommitment :=
  if sc.slots.isEmpty then sc
  else { sc with merkleRoot := (prim.sha256 (sc.slots.flatMap (·.commitment))).toList }

/-- `none` stands for the panic at a message that cannot be encrypted. -/
def submit (prim : Primitives) (aead : Aead) (sc : ShuffleCommitment) (s : Submission) :
    Option (ShuffleSlot × ShuffleCommitment) := do
  -- the length as a `u16`
  let idx := sc.slots.length % 2 ^ 16
  let ct ← aead.encrypt s.key s.nonce s.message
  let slot : ShuffleSlot :=
    { index := idx
      ciphertext := s.nonce.toList ++ ct
      commitment := (prim.sha256 s.message).toList
      nodeId := s.nodeId }
  let sc : ShuffleCommitment :=
    { sc with
      slotKeys := sc.slotKeys.insert idx s.key
      slots := sc.slots ++ [slot] }
  some (slot, sc.updateMerkleRoot prim)

def verify (prim : Primitives) (slot : ShuffleSlot) (plaintext : Bytes) : Bool :=
  constantTimeEq (prim.sha256 plaintext).toList slot.commitment

def decryptSlot (aead : Aead) (sc : ShuffleCommitment) (slot : ShuffleSlot) : Option Bytes :=
  if slot.ciphertext.length < 28 then none
  else
    (sc.slotKeys.lookup slot.index).bind fun key =>
      aead.decrypt key (slot.ciphertext.take 12) (slot.ciphertext.drop 12)

/-- The position of the first slot that does not open, or that fails verification. -/
def findCheater (prim : Primitives) (aead : Aead) (sc : ShuffleCommitment) : Option ℕ :=
  sc.slots.findIdx? fun slot =>
    match sc.decryptSlot aead slot with
    | some pt => !verify prim slot pt
    | none => true

/-- `BlameProtocol::check_cheating`. -/
def checkCheating (prim : Primitives) (aead : Aead) (sc : ShuffleCommitment) : List BlameVerdict :=
  sc.slots.zipIdx.filterMap fun entry =>
    match sc.decryptSlot aead entry.1 with
    | some pt =>
      if !verify prim entry.1 pt then some (.cheating entry.1.nodeId (entry.2 % 2 ^ 16)) else none
    | none => some (.cheating entry.1.nodeId (entry.2 % 2 ^ 16))

/-- The calls of `submit` in a round. -/
def run (prim : Primitives) (aead : Aead) (sc : ShuffleCommitment) (submissions : List Submission) :
    Option ShuffleCommitment :=
  submissions.foldlM (fun sc s => (sc.submit prim aead s).map Prod.snd) sc

variable {prim : Primitives} {aead : Aead} {sc sc' : ShuffleCommitment} {slot : ShuffleSlot}
  {s : Submission} {submissions : List Submission}

/-! ## The two ways to blame -/

/-- The slot opens, and has the checksum of its plaintext. -/
def Sound (prim : Primitives) (aead : Aead) (sc : ShuffleCommitment) (slot : ShuffleSlot) : Prop :=
  ∃ pt, sc.decryptSlot aead slot = some pt ∧ verify prim slot pt = true

/-- Nobody is found if and only if all slots are sound. -/
theorem findCheater_eq_none_iff :
    sc.findCheater prim aead = none ↔ ∀ slot ∈ sc.slots, sc.Sound prim aead slot := by
  rw [findCheater, List.findIdx?_eq_none_iff]
  refine forall₂_congr fun slot _ => ?_
  rw [Sound]
  cases sc.decryptSlot aead slot with
  | none => simp
  | some pt => simp

/-- Nothing is reported if and only if all slots are sound. -/
theorem checkCheating_eq_nil_iff :
    sc.checkCheating prim aead = [] ↔ ∀ slot ∈ sc.slots, sc.Sound prim aead slot := by
  have hentry (slot : ShuffleSlot) (i : ℕ) :
      (match sc.decryptSlot aead slot with
        | some pt =>
          if !verify prim slot pt then some (BlameVerdict.cheating slot.nodeId (i % 2 ^ 16))
          else none
        | none => some (.cheating slot.nodeId (i % 2 ^ 16))) = none ↔ sc.Sound prim aead slot := by
    rw [Sound]
    cases sc.decryptSlot aead slot with
    | none => simp
    | some pt => simp
  rw [checkCheating, List.filterMap_eq_nil_iff]
  constructor
  · intro h slot hslot
    obtain ⟨i, hi, rfl⟩ := List.mem_iff_getElem.mp hslot
    have hmem : (sc.slots[i], i) ∈ sc.slots.zipIdx :=
      List.mem_zipIdx_iff_getElem?.mpr (List.getElem?_eq_getElem hi)
    exact (hentry _ i).mp (h _ hmem)
  · intro h entry hentry'
    exact (hentry entry.1 entry.2).mpr
      (h entry.1 (List.mem_of_getElem? (List.mem_zipIdx_iff_getElem?.mp hentry')))

/-! ## The slots and their keys -/

/-- The slot that the submission at a position gets. -/
def slotOf (prim : Primitives) (i : ℕ) (s : Submission) (ct : Bytes) : ShuffleSlot :=
  ⟨i % 2 ^ 16, s.nonce.toList ++ ct, (prim.sha256 s.message).toList, s.nodeId⟩

/-- A submission is encrypted and takes the next slot. -/
theorem submit_eq_some (h : sc.submit prim aead s = some (slot, sc')) :
    ∃ ct, aead.encrypt s.key s.nonce s.message = some ct ∧ slot = slotOf prim sc.slots.length s ct ∧
      sc'.slots = sc.slots ++ [slot] ∧
      sc'.slotKeys = sc.slotKeys.insert (sc.slots.length % 2 ^ 16) s.key := by
  obtain ⟨ct, hct, h⟩ := Option.bind_eq_some_iff.mp h
  obtain ⟨rfl, rfl⟩ := Prod.mk.inj (Option.some.inj h)
  refine ⟨ct, hct, rfl, ?_, ?_⟩
  · rw [updateMerkleRoot]
    split <;> rfl
  · rw [updateMerkleRoot]
    split <;> rfl

/-- The slots are those of the submissions, in their order. Under every index that is in use stands
the key of the last submission that has it. -/
structure Collected (prim : Primitives) (aead : Aead) (submissions : List Submission)
    (sc : ShuffleCommitment) : Prop where
  length_eq : sc.slots.length = submissions.length
  slot : ∀ i s, submissions[i]? = some s → ∃ ct, aead.encrypt s.key s.nonce s.message = some ct ∧
    sc.slots[i]? = some (slotOf prim i s ct)
  key : ∀ i < submissions.length, ∃ j s, submissions[j]? = some s ∧ j % 2 ^ 16 = i % 2 ^ 16 ∧
    submissions.length ≤ j + 2 ^ 16 ∧ sc.slotKeys.lookup (i % 2 ^ 16) = some s.key

/-- Nothing has been submitted. -/
theorem collected_new (roundId nodeCount : ℕ) :
    (new roundId nodeCount).Collected prim aead [] where
  length_eq := rfl
  slot _ _ h := by cases h
  key _ h := absurd h (Nat.not_lt_zero _)

/-- One submission more. -/
theorem Collected.submit (hc : sc.Collected prim aead submissions)
    (h : sc.submit prim aead s = some (slot, sc')) :
    sc'.Collected prim aead (submissions ++ [s]) := by
  obtain ⟨ct, hct, rfl, hslots, hkeys⟩ := submit_eq_some h
  rw [hc.length_eq] at hslots hkeys
  have hlast : (submissions ++ [s])[submissions.length]? = some s := List.getElem?_concat_length
  constructor
  · rw [hslots, List.length_append, List.length_append, hc.length_eq]
    rfl
  · intro i s' hs'
    rw [hslots]
    rcases Nat.lt_or_ge i submissions.length with hi | hi
    · rw [List.getElem?_append_left hi] at hs'
      rw [List.getElem?_append_left (hc.length_eq ▸ hi)]
      exact hc.slot i s' hs'
    · have hi' : i < (submissions ++ [s]).length := (List.getElem?_eq_some_iff.mp hs').1
      obtain rfl : i = submissions.length := by
        rw [List.length_append] at hi'
        exact le_antisymm (Nat.le_of_lt_succ hi') hi
      obtain rfl : s = s' := Option.some.inj (hlast.symm.trans hs')
      refine ⟨ct, hct, ?_⟩
      rw [← hc.length_eq, List.getElem?_concat_length]
  · intro i hi
    rw [List.length_append, List.length_singleton] at hi ⊢
    rw [hkeys, HashMap.lookup_insert_ite]
    by_cases hindex : i % 2 ^ 16 = submissions.length % 2 ^ 16
    -- the new key replaces the one of every slot with the same index
    · rw [if_pos hindex]
      exact ⟨submissions.length, s, hlast, hindex.symm, by omega, rfl⟩
    · rw [if_neg hindex]
      have hi' : i < submissions.length :=
        lt_of_le_of_ne (Nat.le_of_lt_succ hi) fun heq => hindex (heq ▸ rfl)
      obtain ⟨j, s', hs', hj, hle, hkey⟩ := hc.key i hi'
      have hlt : j < submissions.length := (List.getElem?_eq_some_iff.mp hs').1
      exact ⟨j, s', by rw [List.getElem?_append_left hlt, hs'], hj, by omega, hkey⟩

/-- Several submissions, after those that were there. -/
theorem Collected.run {before : List Submission} (hc : sc.Collected prim aead before)
    (h : sc.run prim aead submissions = some sc') :
    sc'.Collected prim aead (before ++ submissions) := by
  induction submissions generalizing before sc with
  | nil =>
    obtain rfl := Option.some.inj h
    rwa [List.append_nil]
  | cons s submissions ih =>
    obtain ⟨sc₁, hsubmit, hrest⟩ := Option.bind_eq_some_iff.mp h
    obtain ⟨⟨slot, sc₂⟩, hsome, rfl⟩ := Option.map_eq_some_iff.mp hsubmit
    have hrun := ih (hc.submit hsome) hrest
    rwa [List.append_assoc, List.singleton_append] at hrun

/-- A slot is opened with the key of a submission that has the same index. -/
theorem decryptSlot_of_collected (law : aead.Lawful) (hc : sc.Collected prim aead submissions)
    {i : ℕ} (hs : submissions[i]? = some s) :
    ∃ ct j s', aead.encrypt s.key s.nonce s.message = some ct ∧
      sc.slots[i]? = some (slotOf prim i s ct) ∧ submissions[j]? = some s' ∧
      j % 2 ^ 16 = i % 2 ^ 16 ∧ submissions.length ≤ j + 2 ^ 16 ∧
      sc.decryptSlot aead (slotOf prim i s ct) = aead.decrypt s'.key s.nonce.toList ct := by
  obtain ⟨ct, hct, hslot⟩ := hc.slot i s hs
  obtain ⟨j, s', hs', hj, hle, hkey⟩ := hc.key i (List.getElem?_eq_some_iff.mp hs).1
  have hnonce : s.nonce.toList.length = 12 := Vector.length_toList
  refine ⟨ct, j, s', hct, hslot, hs', hj, hle, ?_⟩
  rw [decryptSlot, slotOf, if_neg, hkey, Option.bind_some, List.take_left' hnonce,
    List.drop_left' hnonce]
  rw [List.length_append, hnonce, law.length_encrypt hct]
  omega

/-! ## Blame -/

/-- Every slot opens to the message that was submitted and has its checksum, and nobody is
blamed. -/
structure Unblamed (prim : Primitives) (aead : Aead) (submissions : List Submission)
    (sc : ShuffleCommitment) : Prop where
  opened : List.Forall₂
    (fun slot s => sc.decryptSlot aead slot = some s.message ∧ verify prim slot s.message = true)
    sc.slots submissions
  findCheater : sc.findCheater prim aead = none
  checkCheating : sc.checkCheating prim aead = []

/-- No message opens under the key of another submission. -/
def NoForeignOpening (aead : Aead) (submissions : List Submission) : Prop :=
  ∀ s ∈ submissions, ∀ s' ∈ submissions, s.key ≠ s'.key →
    ∀ ct, aead.encrypt s.key s.nonce s.message = some ct →
      aead.decrypt s'.key s.nonce.toList ct = none

/-- As long as no index is used twice, nobody is blamed. -/
theorem Collected.unblamed (law : aead.Lawful) (hc : sc.Collected prim aead submissions)
    (hlen : submissions.length ≤ 2 ^ 16) : sc.Unblamed prim aead submissions := by
  have hopened : List.Forall₂ (fun slot s =>
      sc.decryptSlot aead slot = some s.message ∧ verify prim slot s.message = true)
      sc.slots submissions := by
    refine List.forall₂_iff_get.mpr ⟨hc.length_eq, fun i hi hi' => ?_⟩
    have hs : submissions[i]? = some submissions[i] := List.getElem?_eq_getElem hi'
    obtain ⟨ct, j, s', hct, hslot, hs', hj, -, hdecrypt⟩ := decryptSlot_of_collected law hc hs
    have hlt : j < submissions.length := (List.getElem?_eq_some_iff.mp hs').1
    -- below 65536 the index of a slot is its position
    obtain rfl : j = i := by
      rwa [Nat.mod_eq_of_lt (by omega), Nat.mod_eq_of_lt (by omega)] at hj
    obtain rfl : submissions[j] = s' := Option.some.inj (hs.symm.trans hs')
    rw [List.getElem?_eq_getElem hi] at hslot
    rw [List.get_eq_getElem, List.get_eq_getElem, Option.some.inj hslot]
    exact ⟨hdecrypt.trans (law.decrypt_encrypt hct), constantTimeEq_iff.mpr rfl⟩
  have hsound : ∀ slot ∈ sc.slots, sc.Sound prim aead slot := by
    intro slot hslot
    obtain ⟨i, hi, rfl⟩ := List.mem_iff_getElem.mp hslot
    exact ⟨_, hopened.get hi (hopened.length_eq ▸ hi)⟩
  exact ⟨hopened, findCheater_eq_none_iff.mpr hsound, checkCheating_eq_nil_iff.mpr hsound⟩

/-- When the indices wrap around, the first slot is opened with a foreign key. -/
theorem Collected.findCheater_of_lt (law : aead.Lawful) (hc : sc.Collected prim aead submissions)
    (hkeys : (submissions.map (·.key)).Nodup) (hforeign : NoForeignOpening aead submissions)
    (hlen : 2 ^ 16 < submissions.length) : sc.findCheater prim aead ≠ none := by
  intro hnone
  have hs : submissions[0]? = some submissions[0] := List.getElem?_eq_getElem (by omega)
  obtain ⟨ct, j, s', hct, hslot, hs', -, hle, hdecrypt⟩ := decryptSlot_of_collected law hc hs
  -- the key is one of the last 65536, so it is not the first
  have hne : submissions[0].key ≠ s'.key := by
    obtain ⟨hj, rfl⟩ := List.getElem?_eq_some_iff.mp hs'
    intro heq
    have hsame := List.inj_on_of_nodup_map hkeys (List.getElem_mem _) (List.getElem_mem hj) heq
    have hzero := (List.Nodup.getElem_inj_iff (List.Nodup.of_map _ hkeys)).mp hsame
    omega
  obtain ⟨pt, hpt, -⟩ := findCheater_eq_none_iff.mp hnone _ (List.mem_of_getElem? hslot)
  have hclosed :=
    hforeign _ (List.mem_of_getElem? hs) s' (List.mem_of_getElem? hs') hne ct hct
  rw [hdecrypt, hclosed] at hpt
  cases hpt

/-- For submissions under keys that are pairwise distinct: nobody is blamed as long as there are at
most 65536 of them. If no message opens under the key of another submission, nobody is blamed only
then. -/
theorem unblamed_iff (law : aead.Lawful) {roundId nodeCount : ℕ}
    (hkeys : (submissions.map (·.key)).Nodup)
    (hrun : (new roundId nodeCount).run prim aead submissions = some sc) :
    (submissions.length ≤ 2 ^ 16 → sc.Unblamed prim aead submissions) ∧
    (NoForeignOpening aead submissions →
      (sc.Unblamed prim aead submissions ↔ submissions.length ≤ 2 ^ 16)) := by
  have hc : sc.Collected prim aead submissions := (collected_new roundId nodeCount).run hrun
  refine ⟨hc.unblamed law, fun hforeign => ⟨fun hunblamed => ?_, hc.unblamed law⟩⟩
  by_contra hlen
  exact hc.findCheater_of_lt law hkeys hforeign (not_le.mp hlen) hunblamed.findCheater

/-- A key that is told from others by its first half. -/
def numberedKey (n : ℕ) : Bytes32 :=
  ⟨(beBytes 16 n ++ List.replicate 16 0).toArray, by simp⟩

/-- One message of each node, under numbered keys. -/
def numberedSubmissions (n : ℕ) : List Submission :=
  (List.range n).map fun i => ⟨beBytes 4 i, asBytes "msg", numberedKey i, .replicate 12 0⟩

/-- Two nodes. -/
theorem unblamed_iff_two :
    (2 ≤ 2 ^ 16 → Unblamed .const sampleAead (numberedSubmissions 2)
      (((new 1 2).run .const sampleAead (numberedSubmissions 2)).getD (new 1 2))) ∧
    (NoForeignOpening sampleAead (numberedSubmissions 2) →
      (Unblamed .const sampleAead (numberedSubmissions 2)
        (((new 1 2).run .const sampleAead (numberedSubmissions 2)).getD (new 1 2)) ↔ 2 ≤ 2 ^ 16)) :=
  @unblamed_iff .const sampleAead _ (numberedSubmissions 2) sampleAead_lawful 1 2 (by decide) rfl

/-- A numbered key begins with its number. -/
theorem take_numberedKey (n : ℕ) : (numberedKey n).toList.take 16 = beBytes 16 n := by
  rw [numberedKey, Vector.toList_mk, List.toList_toArray, List.take_left' (length_beBytes 16 n)]

/-- Numbers that fit are told apart by their bytes. -/
theorem beBytes_injOn {n m : ℕ} (hn : n < 2 ^ 128) (hm : m < 2 ^ 128)
    (h : beBytes 16 n = beBytes 16 m) : n = m := by
  have hvalue := congrArg ofBeBytes h
  rwa [ofBeBytes_beBytes, ofBeBytes_beBytes, Nat.mod_eq_of_lt (by simpa using hn),
    Nat.mod_eq_of_lt (by simpa using hm)] at hvalue

/-- Numbered submissions have different keys. -/
theorem nodup_numberedSubmissions {n : ℕ} (hn : n ≤ 2 ^ 128) :
    ((numberedSubmissions n).map (·.key)).Nodup := by
  rw [numberedSubmissions, List.map_map]
  refine List.Nodup.map_on (fun i hi j hj hkey => ?_) List.nodup_range
  refine beBytes_injOn ((List.mem_range.mp hi).trans_le hn) ((List.mem_range.mp hj).trans_le hn) ?_
  rw [← take_numberedKey, ← take_numberedKey]
  exact congrArg (fun key : Bytes32 => key.toList.take 16) hkey

/-- The cipher does not open a message under a key with another first half. -/
theorem sampleAead_decrypt_foreign {key key' : Bytes32} {nonce plain : Bytes}
    (h : key.toList.take 16 ≠ key'.toList.take 16) :
    sampleAead.decrypt key' nonce (plain ++ key.toList.take 16) = none := by
  have htag : (key.toList.take 16).length = 16 := by simp
  refine if_neg fun hopen => h ?_
  rw [← hopen.2, List.length_append, htag, Nat.add_sub_cancel, List.drop_left]

/-- The sample cipher opens nothing under another key. -/
theorem noForeignOpening_numberedSubmissions (n : ℕ) :
    NoForeignOpening sampleAead (numberedSubmissions n) := by
  intro s hs s' hs' hne ct hct
  obtain ⟨i, -, rfl⟩ := List.mem_map.mp hs
  obtain ⟨j, -, rfl⟩ := List.mem_map.mp hs'
  obtain rfl := Option.some.inj hct
  refine sampleAead_decrypt_foreign fun htake => hne ?_
  rw [take_numberedKey, take_numberedKey] at htake
  simp only [numberedKey, htake]

/-- Where everything can be encrypted, a round is completed. -/
theorem isSome_run (hencrypt : ∀ key nonce plain, (aead.encrypt key nonce plain).isSome) :
    (sc.run prim aead submissions).isSome := by
  induction submissions generalizing sc with
  | nil => rfl
  | cons s submissions ih =>
    obtain ⟨ct, hct⟩ := Option.isSome_iff_exists.mp (hencrypt s.key s.nonce s.message)
    rw [run, List.foldlM_cons, submit, hct]
    exact ih

/-- In a round of more than 65536 messages a node is blamed. -/
theorem findCheater_numberedSubmissions {n : ℕ} (hn : 2 ^ 16 < n) (hn' : n ≤ 2 ^ 128)
    (hrun : (new 1 2).run prim sampleAead (numberedSubmissions n) = some sc) :
    sc.findCheater prim sampleAead ≠ none := by
  refine ((collected_new 1 2).run hrun).findCheater_of_lt sampleAead_lawful
    (nodup_numberedSubmissions hn') (noForeignOpening_numberedSubmissions n) ?_
  rwa [List.nil_append, numberedSubmissions, List.length_map, List.length_range]

/-- With 65537 messages an honest node is blamed. -/
theorem honest_node_blamed :
    ¬ ∀ (aead : Aead) (submissions : List Submission) (sc : ShuffleCommitment), aead.Lawful →
      (submissions.map (·.key)).Nodup →
      (new 1 2).run .const aead submissions = some sc → sc.Unblamed .const aead submissions := by
  intro hclaim
  have hn : 2 ^ 16 < 65537 := by decide
  have hn' : 65537 ≤ 2 ^ 128 := by decide
  generalize 65537 = n at hn hn'
  obtain ⟨sc, hrun⟩ := Option.isSome_iff_exists.mp (isSome_run fun _ _ _ => rfl :
    ((new 1 2).run .const sampleAead (numberedSubmissions n)).isSome)
  have hunblamed := hclaim sampleAead _ sc sampleAead_lawful (nodup_numberedSubmissions hn') hrun
  exact findCheater_numberedSubmissions hn hn' hrun hunblamed.findCheater

end ShuffleCommitment

end ChronoShift
