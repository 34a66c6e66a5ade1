import ChronoShift.DcNet.RoundNetwork

/-!
# Runs of a round collector

A collector sees any sequence of submissions: of outsiders, of wrong lengths, repeated. The first
acceptable share of a participant is the one it keeps, so the stored shares are a function of the
submissions (`lookup_trySubmitAll`), and the accepted submissions may come in any order.

The hash table is visited in an order of its own, which is a parameter of `extractMessageVisiting`.

* `RoundCollector.trySubmitAll_spec`: what holds after every sequence of submissions.
-/

namespace ChronoShift

open ToMathlib

namespace RoundCollector

/-- The collector after a sequence of calls of `submit_share`. -/
def trySubmitAll (c : RoundCollector) (calls : List (String × Bytes)) : RoundCollector :=
  calls.foldl (fun c p => c.trySubmit p.1 p.2) c

/-- The calls of a sequence that are accepted. -/
def accepted (c : RoundCollector) : List (String × Bytes) → List (String × Bytes)
  | [] => []
  | (peerUid, xored) :: calls =>
    match c.submitShare peerUid xored with
    | .ok c' => (peerUid, xored) :: c'.accepted calls
    | .error _ => c.accepted calls

/-- `extract_message`, visiting the hash table in the given order. -/
def extractMessageVisiting (c : RoundCollector) (order : IterOrder Bytes) : Option Bytes :=
  if c.sharesReceived.entries.isEmpty then none
  else
    some ((order.visit c.sharesReceived.values).foldl
      (fun result share => copyFromSlice result 0 (xorBytes result share))
      (List.replicate c.payloadLen 0))

/-- A share of a participant, of the length of the round. It is refused only if the participant has
submitted one before. -/
def Acceptable (c : RoundCollector) (p : String × Bytes) : Prop :=
  p.1 ∈ c.participants ∧ p.2.length = c.payloadLen

instance (c : RoundCollector) (p : String × Bytes) : Decidable (c.Acceptable p) :=
  inferInstanceAs (Decidable (_ ∧ _))

theorem extractMessageVisiting_stored (c : RoundCollector) :
    c.extractMessageVisiting .stored = c.extractMessage := rfl

variable {c : RoundCollector}

/-! ## One submission -/

/-- A submission is accepted if it is acceptable and the first one of its sender. -/
theorem submitShare_cases (c : RoundCollector) (p : String × Bytes) :
    (c.Acceptable p ∧ p.1 ∉ c.sharesReceived ∧ c.submitShare p.1 p.2 =
        .ok { c with sharesReceived := c.sharesReceived.insert p.1 p.2 }) ∨
      (¬ (c.Acceptable p ∧ p.1 ∉ c.sharesReceived) ∧ ∃ e, c.submitShare p.1 p.2 = .error e) := by
  cases h : c.submitShare p.1 p.2 with
  | ok c' =>
    obtain ⟨hp, hnew, hlen, rfl⟩ := submitShare_eq_ok.mp h
    exact Or.inl ⟨⟨hp, hlen⟩, hnew, rfl⟩
  | error e =>
    refine Or.inr ⟨fun ⟨⟨hp, hlen⟩, hnew⟩ => ?_, e, rfl⟩
    rw [submitShare_eq_ok.mpr ⟨hp, hnew, hlen, rfl⟩] at h
    cases h

theorem acceptable_trySubmit_iff {p q : String × Bytes} :
    (c.trySubmit q.1 q.2).Acceptable p ↔ c.Acceptable p := by
  obtain ⟨-, -, hparticipants, hlen⟩ := c.trySubmit_frame q.1 q.2
  rw [Acceptable, hparticipants, hlen, Acceptable]

/-- The share a submission leaves for a participant: the one it has, or the new one. -/
theorem lookup_trySubmit (c : RoundCollector) (p : String × Bytes) (uid : String) :
    (c.trySubmit p.1 p.2).sharesReceived.lookup uid = (c.sharesReceived.lookup uid).or
      (if p.1 = uid ∧ c.Acceptable p then some p.2 else none) := by
  rcases c.submitShare_cases p with ⟨hacceptable, hnew, hsubmit⟩ | ⟨hrefused, e, hsubmit⟩
  · rw [trySubmit, hsubmit]
    show (c.sharesReceived.insert p.1 p.2).lookup uid = _
    rw [HashMap.lookup_insert_ite]
    by_cases huid : uid = p.1
    · subst huid
      rw [if_pos rfl, AList.lookup_eq_none.mpr hnew, if_pos ⟨rfl, hacceptable⟩, Option.none_or]
    · rw [if_neg huid, if_neg fun h => huid h.1.symm, Option.or_none]
  · rw [trySubmit, hsubmit]
    show c.sharesReceived.lookup uid = _
    by_cases htaken : p.1 = uid ∧ c.Acceptable p
    -- an acceptable share is refused because there is one already
    · obtain ⟨rfl, hacceptable⟩ := htaken
      have hmem : p.1 ∈ c.sharesReceived := by
        by_contra hnew
        exact hrefused ⟨hacceptable, hnew⟩
      obtain ⟨share, hshare⟩ := HashMap.mem_iff_exists_lookup.mp hmem
      rw [hshare, Option.some_or]
    · rw [if_neg htaken, Option.or_none]

/-! ## Sequences of submissions -/

theorem trySubmitAll_cons (c : RoundCollector) (p : String × Bytes)
    (calls : List (String × Bytes)) :
    c.trySubmitAll (p :: calls) = (c.trySubmit p.1 p.2).trySubmitAll calls := rfl

theorem trySubmitAll_frame (c : RoundCollector) (calls : List (String × Bytes)) :
    (c.trySubmitAll calls).participants = c.participants ∧
      (c.trySubmitAll calls).payloadLen = c.payloadLen := by
  induction calls generalizing c with
  | nil => exact ⟨rfl, rfl⟩
  | cons p calls ih =>
    obtain ⟨-, -, hparticipants, hlen⟩ := c.trySubmit_frame p.1 p.2
    rw [trySubmitAll_cons, (ih _).1, (ih _).2, hparticipants, hlen]
    exact ⟨rfl, rfl⟩

theorem WellFormed.trySubmitAll (hc : c.WellFormed) (calls : List (String × Bytes)) :
    (c.trySubmitAll calls).WellFormed := by
  induction calls generalizing c with
  | nil => exact hc
  | cons p calls ih => exact ih (hc.trySubmit p.1 p.2)

/-- The share of a participant after a sequence of submissions: the one it had, or else the first
acceptable one of the sequence. -/
theorem lookup_trySubmitAll (c : RoundCollector) (calls : List (String × Bytes)) (uid : String) :
    (c.trySubmitAll calls).sharesReceived.lookup uid = (c.sharesReceived.lookup uid).or
      ((calls.find? fun p => p.1 = uid ∧ c.Acceptable p).map Prod.snd) := by
  induction calls generalizing c with
  | nil => rw [List.find?_nil, Option.map_none, Option.or_none]; rfl
  | cons p calls ih =>
    rw [trySubmitAll_cons, ih, lookup_trySubmit, Option.or_assoc, List.find?_cons]
    simp only [acceptable_trySubmit_iff]
    by_cases hfirst : p.1 = uid ∧ c.Acceptable p
    -- the first acceptable submission counts, unless there was a share before
    · rw [if_pos hfirst, decide_eq_true hfirst, Option.some_or]
      rfl
    · rw [if_neg hfirst, decide_eq_false hfirst, Option.none_or]

/-! ## The accepted submissions -/

/-- The accepted submissions are acceptable and new, one for each sender. -/
theorem accepted_spec (c : RoundCollector) (calls : List (String × Bytes)) :
    (∀ p ∈ c.accepted calls, c.Acceptable p ∧ p.1 ∉ c.sharesReceived) ∧
      ((c.accepted calls).map Prod.fst).Nodup := by
  induction calls generalizing c with
  | nil => exact ⟨List.forall_mem_nil _, List.nodup_nil⟩
  | cons p calls ih =>
    rcases c.submitShare_cases p with ⟨hacceptable, hnew, hsubmit⟩ | ⟨-, e, hsubmit⟩
    · obtain ⟨hspec, hnodup⟩ := ih { c with sharesReceived := c.sharesReceived.insert p.1 p.2 }
      -- what is accepted later is of other senders, since this one has a share now
      simp only [AList.mem_insert, not_or] at hspec
      rw [accepted, hsubmit]
      refine ⟨List.forall_mem_cons.mpr ⟨⟨hacceptable, hnew⟩, fun q hq => ?_⟩,
        List.nodup_cons.mpr ⟨fun hmem => ?_, hnodup⟩⟩
      · exact ⟨(hspec q hq).1, (hspec q hq).2.2⟩
      · obtain ⟨q, hq, heq⟩ := List.mem_map.mp hmem
        exact (hspec q hq).2.1 heq
    · rw [accepted, hsubmit]
      exact ih c

/-- Acceptable submissions of different senders that have not submitted are all accepted. -/
theorem accepted_eq_self {calls : List (String × Bytes)}
    (hcalls : ∀ p ∈ calls, c.Acceptable p ∧ p.1 ∉ c.sharesReceived)
    (hnodup : (calls.map Prod.fst).Nodup) : c.accepted calls = calls := by
  induction calls generalizing c with
  | nil => rfl
  | cons p calls ih =>
    obtain ⟨hp, hcalls⟩ := List.forall_mem_cons.mp hcalls
    obtain ⟨hfresh, hnodup⟩ := List.nodup_cons.mp hnodup
    rcases c.submitShare_cases p with ⟨-, -, hsubmit⟩ | ⟨hrefused, -⟩
    · rw [accepted, hsubmit]
      -- the share that was just stored does not stand in the way of the others
      refine congrArg (p :: ·) (ih (fun q hq => ⟨(hcalls q hq).1, fun hmem => ?_⟩) hnodup)
      rcases (AList.mem_insert _).mp hmem with heq | hmem
      · exact hfresh (heq ▸ List.mem_map_of_mem hq)
      · exact (hcalls q hq).2 hmem
    · exact absurd hp hrefused

/-- Any rearrangement of the accepted submissions is accepted as well. -/
theorem accepted_of_perm {calls calls' : List (String × Bytes)}
    (h : calls'.Perm (c.accepted calls)) : c.accepted calls' = calls' := by
  obtain ⟨hspec, hnodup⟩ := c.accepted_spec calls
  exact accepted_eq_self (fun p hp => hspec p (h.mem_iff.mp hp))
    ((h.map Prod.fst).nodup_iff.mpr hnodup)

/-- What is stored, beyond what was stored before, is what was accepted. -/
theorem mem_accepted_iff {calls : List (String × Bytes)} {uid : String} {share : Bytes} :
    (uid, share) ∈ c.accepted calls ↔ c.sharesReceived.lookup uid = none ∧
      (c.trySubmitAll calls).sharesReceived.lookup uid = some share := by
  induction calls generalizing c with
  | nil =>
    refine ⟨fun h => absurd h List.not_mem_nil, fun ⟨hnone, hsome⟩ => ?_⟩
    rw [show c.trySubmitAll [] = c from rfl, hnone] at hsome
    cases hsome
  | cons p calls ih =>
    rw [trySubmitAll_cons]
    rcases c.submitShare_cases p with ⟨-, hnew, hsubmit⟩ | ⟨-, e, hsubmit⟩
    · rw [accepted, trySubmit, hsubmit]
      show (uid, share) ∈ p :: accepted _ calls ↔ _
      rw [List.mem_cons, ih]
      show _ ∨ (c.sharesReceived.insert p.1 p.2).lookup uid = none ∧ _ ↔ _
      rw [HashMap.lookup_insert_ite]
      by_cases huid : uid = p.1
      -- the share that was just stored stays
      · subst huid
        rw [if_pos rfl, lookup_trySubmitAll, HashMap.lookup_insert_ite, if_pos rfl, Option.some_or,
          AList.lookup_eq_none.mpr hnew, Option.some_inj]
        simp [Prod.ext_iff, eq_comm]
      · rw [if_neg huid]
        exact or_iff_right fun heq => huid (congrArg Prod.fst heq)
    · rw [accepted, trySubmit, hsubmit]
      exact ih

/-- Sequences with the same accepted submissions, in whatever order, store the same shares. -/
theorem lookup_eq_of_accepted_perm {calls calls' : List (String × Bytes)}
    (h : (c.accepted calls').Perm (c.accepted calls)) (uid : String) :
    (c.trySubmitAll calls').sharesReceived.lookup uid =
      (c.trySubmitAll calls).sharesReceived.lookup uid := by
  cases hold : c.sharesReceived.lookup uid with
  | some share =>
    rw [lookup_trySubmitAll, lookup_trySubmitAll, hold, Option.some_or, Option.some_or]
  | none =>
    refine Option.ext fun share => ?_
    have hmem := h.mem_iff (a := (uid, share))
    rwa [mem_accepted_iff, mem_accepted_iff, and_iff_right hold, and_iff_right hold] at hmem

/-! ## Extraction -/

/-- Collectors that store the same shares extract the same word, in whatever orders their hash
tables are visited. -/
theorem extractMessageVisiting_congr {c' : RoundCollector} (hc : c.WellFormed) (hc' : c'.WellFormed)
    (hlen : c'.payloadLen = c.payloadLen)
    (hlookup : ∀ uid, c'.sharesReceived.lookup uid = c.sharesReceived.lookup uid)
    (order order' : IterOrder Bytes) :
    c'.extractMessageVisiting order' = c.extractMessageVisiting order := by
  have hlens {d : RoundCollector} (hd : d.WellFormed) (o : IterOrder Bytes) :
      ∀ share ∈ o.visit d.sharesReceived.values, share.length = d.payloadLen :=
    fun share hshare => hd.length_of_mem_values share (o.mem_visit.mp hshare)
  have hentries := HashMap.entries_perm_iff.mpr hlookup
  have hvalues : (order'.visit c'.sharesReceived.values).Perm
      (order.visit c.sharesReceived.values) :=
    (order'.perm _).trans (((hentries.map _).map _).trans (order.perm _).symm)
  have hzeros : (List.replicate c.payloadLen (0 : UInt8)).length = c.payloadLen := by simp
  obtain ⟨hlen₁, hsum₁⟩ := foldl_xorBytes hzeros (hlens hc order)
  obtain ⟨hlen₂, hsum₂⟩ := foldl_xorBytes hzeros (hlen ▸ hlens hc' order')
  rw [extractMessageVisiting, extractMessageVisiting, hlen, hentries.isEmpty_eq]
  rw [foldl_copyFromSlice hzeros (hlens hc order),
    foldl_copyFromSlice hzeros (hlen ▸ hlens hc' order')]
  -- both words have the payload length and the sum of the same shares
  congr 2
  refine zeroExt_inj_of_length (hlen₂.trans hlen₁.symm) ?_
  rw [hsum₁, hsum₂, (hvalues.map zeroExt).sum_eq]

/-- The representation invariant of a collector. For every list of participants and every sequence
of submissions: only participants have shares; every share has the payload length; the share of a
participant is the first acceptable one that was submitted for it; the collector is complete exactly
when no participant is missing; and the extracted word does not depend on the order in which the
hash table is visited, nor on the order of the accepted submissions, as every sequence with the same
accepted submissions leads to it. Every rearrangement of the accepted submissions is such a
sequence. -/
theorem trySubmitAll_spec (channel : String) (roundId : ℕ) (participants : List String)
    (deadlineSecs payloadLen now : ℕ) (calls : List (String × Bytes)) :
    let c₀ := new channel roundId participants deadlineSecs payloadLen now
    let c := c₀.trySubmitAll calls
    (∀ uid ∈ c.sharesReceived, uid ∈ participants) ∧
    (∀ uid share, c.sharesReceived.lookup uid = some share → share.length = c.payloadLen) ∧
    (∀ uid, c.sharesReceived.lookup uid = (calls.find? fun p =>
      p.1 = uid ∧ p.1 ∈ participants ∧ p.2.length = c.payloadLen).map Prod.snd) ∧
    (c.isComplete = true ↔ c.missingParticipants = []) ∧
    (∀ calls' order, (c₀.accepted calls').Perm (c₀.accepted calls) →
      (c₀.trySubmitAll calls').extractMessageVisiting order = c.extractMessage) ∧
    ∀ calls', calls'.Perm (c₀.accepted calls) → c₀.accepted calls' = calls' := by
  intro c₀ c
  have hc₀ : c₀.WellFormed := wellFormed_new ..
  have hc : c.WellFormed := hc₀.trySubmitAll calls
  obtain ⟨hparticipants, hlen⟩ := c₀.trySubmitAll_frame calls
  have hmem {uid : String} : uid ∈ c.participants ↔ uid ∈ participants := by
    rw [hparticipants]
    exact List.mem_dedup
  refine ⟨fun uid huid => hmem.mp (hc.keys uid huid), hc.lengths, fun uid => ?_, ?_, ?_, ?_⟩
  -- the share of a member is the first one that could be accepted
  · have hnone : c₀.sharesReceived.lookup uid = none := AList.lookup_empty uid
    have hacceptable (p : String × Bytes) :
        c₀.Acceptable p ↔ p.1 ∈ participants ∧ p.2.length = c.payloadLen := by
      rw [Acceptable, hlen, ← hparticipants, hmem]
    rw [lookup_trySubmitAll, hnone, Option.none_or]
    simp only [hacceptable]
  · rw [hc.isComplete_iff, missingParticipants, List.filter_eq_nil_iff]
    simp
  -- only the accepted shares count, and not their order
  · intro calls' order hperm
    rw [← extractMessageVisiting_stored]
    exact extractMessageVisiting_congr hc (hc₀.trySubmitAll calls')
      ((c₀.trySubmitAll_frame calls').2.trans hlen.symm) (lookup_eq_of_accepted_perm hperm)
      .stored order
  · exact fun calls' hperm => accepted_of_perm hperm

end RoundCollector

end ChronoShift
