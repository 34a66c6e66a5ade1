import ChronoShift.DcNet.Shuffle

/-!
# Revealing a shuffle

Once the slots of a round have been collected, `reveal_round` of `dcnet/f2f.rs` lists the messages
of the slots that open and have their checksum, and `check_cheating` blames the nodes of the others.
The keys are not serialized: a commitment that has been sent to another node has lost them.

* `ShuffleCommitment.reveal_run`: which messages of a round are revealed, in which order, and who is
  blamed.
-/

namespace ChronoShift

open ToMathlib

namespace ShuffleCommitment

/-- `F2fDcNetBridge::reveal_round`. The channel it is given is not used. -/
def revealRound (prim : Primitives) (aead : Aead) (sc : ShuffleCommitment) : List String :=
  sc.slots.filterMap fun slot =>
    match sc.decryptSlot aead slot with
    | some pt => if verify prim slot pt then some (fromUtf8Lossy pt) else none
    | none => none

/-- The commitment as another node reads it. -/
def deserialized (sc : ShuffleCommitment) : ShuffleCommitment := { sc with slotKeys := ∅ }

/-- What the node of a submission is blamed for, with the position of its slot as a `u16`. -/
def blamed (p : Submission × ℕ) : BlameVerdict := .cheating p.1.nodeId (p.2 % 2 ^ 16)

/-! ## Lists that are read slot by slot -/

section Lists

variable {α β γ : Type*} {k : ℕ}

theorem filterMap_eq_of_getElem? {l : List α} {l' : List β} {f : α → Option γ} {f' : β → Option γ}
    (hlen : l.length = l'.length)
    (h : ∀ (i : ℕ) a b, l[i]? = some a → l'[i]? = some b → f a = f' b) :
    l.filterMap f = l'.filterMap f' := by
  have hmap : l.map f = l'.map f' := by
    refine List.ext_getElem (by simpa using hlen) fun i hi hi' => ?_
    rw [List.length_map] at hi hi'
    rw [List.getElem_map, List.getElem_map]
    exact h i _ _ (List.getElem?_eq_getElem hi) (List.getElem?_eq_getElem hi')
  rw [← Function.id_comp f, ← Function.id_comp f', ← List.filterMap_map, hmap, List.filterMap_map]

/-- The entries before a position. -/
theorem filterMap_zipIdx_lt (l : List β) (m : ℕ) (g : β × ℕ → γ) :
    ((l.zipIdx m).filterMap fun p => if p.2 < k then some (g p) else none) =
      ((l.take (k - m)).zipIdx m).map g := by
  induction l generalizing m with
  | nil => simp
  | cons b l ih =>
    rw [List.zipIdx_cons, List.filterMap_cons]
    dsimp only
    by_cases hm : m < k
    · rw [if_pos hm, ih, show k - m = k - (m + 1) + 1 by omega, List.take_succ_cons,
        List.zipIdx_cons, List.map_cons]
    · rw [if_neg hm, ih, Nat.sub_eq_zero_of_le (not_lt.mp hm),
        Nat.sub_eq_zero_of_le ((not_lt.mp hm).trans m.le_succ)]
      rfl

/-- The entries from a position on. -/
theorem filterMap_zipIdx_not_lt (l : List β) (m : ℕ) (g : β → γ) :
    ((l.zipIdx m).filterMap fun p => if p.2 < k then none else some (g p.1)) =
      (l.drop (k - m)).map g := by
  induction l generalizing m with
  | nil => simp
  | cons b l ih =>
    rw [List.zipIdx_cons, List.filterMap_cons]
    dsimp only
    by_cases hm : m < k
    · rw [if_pos hm, ih, show k - m = k - (m + 1) + 1 by omega, List.drop_succ_cons]
    · rw [if_neg hm, ih, Nat.sub_eq_zero_of_le (not_lt.mp hm),
        Nat.sub_eq_zero_of_le ((not_lt.mp hm).trans m.le_succ)]
      rfl

end Lists

variable {prim : Primitives} {aead : Aead} {sc : ShuffleCommitment} {s : Submission}
  {submissions : List Submission}

/-! ## What opens -/

/-- The slot of a submission opens, unless its key has been replaced: 65536 submissions later there
is another one with the same index. -/
theorem Collected.opening (law : aead.Lawful) (hc : sc.Collected prim aead submissions)
    (hkeys : (submissions.map (·.key)).Nodup) (hforeign : NoForeignOpening aead submissions)
    {i : ℕ} {slot : ShuffleSlot} (hslot : sc.slots[i]? = some slot)
    (hs : submissions[i]? = some s) :
    slot.nodeId = s.nodeId ∧ verify prim slot s.message = true ∧
      sc.decryptSlot aead slot =
        if i < submissions.length - 2 ^ 16 then none else some s.message := by
  obtain ⟨ct, j, s', hct, hslot', hs', hj, hle, hdecrypt⟩ := decryptSlot_of_collected law hc hs
  obtain rfl : slot = slotOf prim i s ct := Option.some.inj (hslot.symm.trans hslot')
  refine ⟨rfl, constantTimeEq_iff.mpr rfl, ?_⟩
  obtain ⟨hlt, rfl⟩ := List.getElem?_eq_some_iff.mp hs'
  obtain ⟨hi, rfl⟩ := List.getElem?_eq_some_iff.mp hs
  rw [hdecrypt]
  split
  next hreplaced =>
    -- the key in use is one of the last 65536
    refine hforeign _ (List.getElem_mem _) _ (List.getElem_mem _) (fun heq => ?_) ct hct
    have hsame := List.inj_on_of_nodup_map hkeys (List.getElem_mem _) (List.getElem_mem _) heq
    have hij := (List.Nodup.getElem_inj_iff (List.Nodup.of_map _ hkeys)).mp hsame
    omega
  next hkept =>
    obtain rfl : j = i := by omega
    exact law.decrypt_encrypt hct

/-- Without keys no slot opens. -/
theorem decryptSlot_deserialized (slot : ShuffleSlot) :
    sc.deserialized.decryptSlot aead slot = none := by
  rw [decryptSlot, deserialized, AList.lookup_empty]
  split <;> rfl

/-! ## What is revealed -/

/-- The messages of the last 65536 submissions are revealed, in the order in which they were
submitted. -/
theorem Collected.revealRound_eq (law : aead.Lawful) (hc : sc.Collected prim aead submissions)
    (hkeys : (submissions.map (·.key)).Nodup) (hforeign : NoForeignOpening aead submissions) :
    sc.revealRound prim aead =
      (submissions.drop (submissions.length - 2 ^ 16)).map fun s => fromUtf8Lossy s.message := by
  rw [← Nat.sub_zero (submissions.length - 2 ^ 16), ← filterMap_zipIdx_not_lt, revealRound]
  refine filterMap_eq_of_getElem? (by rw [List.length_zipIdx, hc.length_eq]) ?_
  rintro i slot ⟨s, i'⟩ hslot hp
  obtain ⟨hs, rfl⟩ : submissions[i]? = some s ∧ i = i' := by simpa using hp
  obtain ⟨-, hverify, hopen⟩ := hc.opening law hkeys hforeign hslot hs
  rw [hopen]
  by_cases hreplaced : i < submissions.length - 2 ^ 16
  · rw [if_pos hreplaced, if_pos hreplaced]
  · rw [if_neg hreplaced, if_neg hreplaced]
    exact if_pos hverify

/-- The nodes of all other submissions are blamed. -/
theorem Collected.checkCheating_eq (law : aead.Lawful) (hc : sc.Collected prim aead submissions)
    (hkeys : (submissions.map (·.key)).Nodup) (hforeign : NoForeignOpening aead submissions) :
    sc.checkCheating prim aead =
      (submissions.take (submissions.length - 2 ^ 16)).zipIdx.map blamed := by
  rw [← Nat.sub_zero (submissions.length - 2 ^ 16), ← filterMap_zipIdx_lt, checkCheating]
  refine filterMap_eq_of_getElem? (by simp only [List.length_zipIdx, hc.length_eq]) ?_
  rintro i ⟨slot, i'⟩ ⟨s, i''⟩ hentry hp
  obtain ⟨hslot, rfl⟩ : sc.slots[i]? = some slot ∧ i = i' := by simpa using hentry
  obtain ⟨hs, rfl⟩ : submissions[i]? = some s ∧ i = i'' := by simpa using hp
  obtain ⟨hnode, hverify, hopen⟩ := hc.opening law hkeys hforeign hslot hs
  dsimp only
  rw [hopen]
  split_ifs with hreplaced
  · rw [hnode]
    rfl
  · simp [hverify]

/-- Without keys nothing is revealed. -/
theorem revealRound_deserialized : sc.deserialized.revealRound prim aead = [] := by
  refine List.filterMap_eq_nil_iff.mpr fun slot _ => ?_
  rw [decryptSlot_deserialized]

/-- Without keys everybody is blamed. -/
theorem Collected.checkCheating_deserialized (hc : sc.Collected prim aead submissions) :
    sc.deserialized.checkCheating prim aead = submissions.zipIdx.map blamed := by
  rw [← List.filterMap_eq_map, checkCheating]
  have hslots : sc.deserialized.slots = sc.slots := rfl
  refine filterMap_eq_of_getElem? (by simp only [hslots, List.length_zipIdx, hc.length_eq]) ?_
  rintro i ⟨slot, i'⟩ ⟨s, i''⟩ hentry hp
  obtain ⟨hslot, rfl⟩ : sc.slots[i]? = some slot ∧ i = i' := by simpa [hslots] using hentry
  obtain ⟨hs, rfl⟩ : submissions[i]? = some s ∧ i = i'' := by simpa using hp
  obtain ⟨ct, -, hslot'⟩ := hc.slot i s hs
  dsimp only
  rw [decryptSlot_deserialized, Option.some.inj (hslot.symm.trans hslot')]
  rfl

/-- For submissions under keys that are pairwise distinct, where no message opens under the key of
another one: the messages of the last 65536 of them are revealed, in the order in which they were
submitted, so that the position of a message tells who sent it. Everybody whose message is not
among them is blamed. Another node, which reads the commitment without the keys, reveals nothing and
blames everybody. -/
theorem reveal_run (law : aead.Lawful) {roundId nodeCount : ℕ}
    (hkeys : (submissions.map (·.key)).Nodup) (hforeign : NoForeignOpening aead submissions)
    (hrun : (new roundId nodeCount).run prim aead submissions = some sc) :
    sc.revealRound prim aead =
        (submissions.drop (submissions.length - 2 ^ 16)).map (fun s => fromUtf8Lossy s.message) ∧
      sc.checkCheating prim aead =
        (submissions.take (submissions.length - 2 ^ 16)).zipIdx.map blamed ∧
      sc.deserialized.revealRound prim aead = [] ∧
      sc.deserialized.checkCheating prim aead = submissions.zipIdx.map blamed := by
  have hc : sc.Collected prim aead submissions := (collected_new roundId nodeCount).run hrun
  exact ⟨hc.revealRound_eq law hkeys hforeign, hc.checkCheating_eq law hkeys hforeign,
    revealRound_deserialized, hc.checkCheating_deserialized⟩

/-- Of 65537 messages the first one is lost, and its node is blamed. -/
theorem reveal_numberedSubmissions :
    ∃ sc, (new 1 2).run .const sampleAead (numberedSubmissions 65537) = some sc ∧
      (sc.revealRound .const sampleAead).length = 65536 ∧
      (sc.checkCheating .const sampleAead).length = 1 := by
  have hn : 65537 - 2 ^ 16 = 1 := rfl
  have hn' : 65537 ≤ 2 ^ 128 := by decide
  generalize 65537 = n at hn hn' ⊢
  obtain ⟨sc, hrun⟩ := Option.isSome_iff_exists.mp (isSome_run fun _ _ _ => rfl :
    ((new 1 2).run .const sampleAead (numberedSubmissions n)).isSome)
  obtain ⟨hreveal, hblame, -⟩ := reveal_run sampleAead_lawful (nodup_numberedSubmissions hn')
    (noForeignOpening_numberedSubmissions n) hrun
  have hlen : (numberedSubmissions n).length = n := by
    rw [numberedSubmissions, List.length_map, List.length_range]
  rw [hlen, hn] at hreveal hblame
  refine ⟨sc, hrun, ?_, ?_⟩
  · rw [hreveal, List.length_map, List.length_drop, hlen]
    omega
  · rw [hblame, List.length_map, List.length_zipIdx, List.length_take, hlen]
    omega

end ShuffleCommitment

end ChronoShift
