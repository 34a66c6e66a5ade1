import ChronoShift.Pgp.WebOfTrust
import Mathlib.Algebra.Group.Action.Defs

/-!
# The trust computation is a least fixed point

`compute_trust_map` visits the keys in place, in an order that may change from pass to pass, until
a pass changes no level. The rule that gives a key its new level is monotone, and the base levels
are below what it gives, so the loop is a chaotic iteration to the least solution of the rule.

* `WebOfTrust.newLevel_eq_updateRule`: the counting loop computes the rule;
* `WebOfTrust.trustLoop_eq_some`: the loop ends;
* `WebOfTrust.isLeast_computeTrustMap`: its result is the least solution above the base levels.
-/

namespace ChronoShift

open ToMathlib

/-! ## The rule -/

/-- What the signatures on a key contribute: the level of the signer, capped by the level that the
signature grants. -/
def contributions (sigs : List TrustSignature) (trust : String → TrustLevel) (fp : String) :
    List TrustLevel :=
  (sigs.filter fun sig => sig.subjectFingerprint = fp).map fun sig =>
    min (trust sig.signerFingerprint) sig.level

/-- The rule: `full` from one contribution of at least `full` or from two of at least `marginal`,
`marginal` from one of at least `marginal`. -/
def updateRule (sigs : List TrustSignature) (trust : String → TrustLevel) (fp : String) :
    TrustLevel :=
  let cs := contributions sigs trust fp
  if (∃ c ∈ cs, .full ≤ c) ∨ 2 ≤ cs.countP (.marginal ≤ ·) then .full
  else if ∃ c ∈ cs, .marginal ≤ c then .marginal
  else .unknown

section Rule

variable {sigs : List TrustSignature} {trust trust' : String → TrustLevel} {fp : String}

/-- The loop counts the contributions of at least `full`, and the other ones of at least
`marginal`. -/
theorem foldl_countContribution (sigs : List TrustSignature) (m n : ℕ) :
    sigs.foldl (countContribution trust fp) (m, n) =
      (m + (contributions sigs trust fp).countP (.full ≤ ·),
        n + (contributions sigs trust fp).countP fun c => .marginal ≤ c ∧ ¬ .full ≤ c) := by
  induction sigs generalizing m n with
  | nil => rfl
  | cons sig sigs ih =>
    rw [List.foldl_cons]
    -- a signature of another key does not count
    by_cases hsubject : sig.subjectFingerprint = fp
    · have hcons : contributions (sig :: sigs) trust fp =
          min (trust sig.signerFingerprint) sig.level :: contributions sigs trust fp := by
        simp [contributions, hsubject]
      rw [hcons, List.countP_cons, List.countP_cons, countContribution,
        if_neg (not_not.mpr hsubject)]
      generalize min (trust sig.signerFingerprint) sig.level = c
      by_cases hfull : TrustLevel.full ≤ c
      · rw [if_pos hfull, ih]
        simp [hfull]
        omega
      · rw [if_neg hfull]
        by_cases hmarginal : TrustLevel.marginal ≤ c
        · rw [if_pos hmarginal, ih]
          simp [not_le.mp hfull, hmarginal]
          omega
        · rw [if_neg hmarginal, ih]
          simp [hfull, hmarginal]
    · have hcons : contributions (sig :: sigs) trust fp = contributions sigs trust fp := by
        simp [contributions, hsubject]
      rw [hcons, countContribution, if_pos hsubject]
      exact ih m n

/-- The counting loop computes the rule. -/
theorem newLevel_eq_updateRule (sigs : List TrustSignature) :
    newLevel sigs = updateRule sigs := by
  funext trust fp
  rw [newLevel, foldl_countContribution, updateRule]
  dsimp only
  generalize contributions sigs trust fp = cs
  simp only [Nat.zero_add]
  by_cases hfull : ∃ c ∈ cs, TrustLevel.full ≤ c
  · have hcount : 1 ≤ cs.countP (TrustLevel.full ≤ ·) := by
      rw [Nat.one_le_iff_ne_zero, ← Nat.pos_iff_ne_zero, List.countP_pos_iff]
      simpa using hfull
    rw [if_pos (Or.inl hcount), if_pos (Or.inl hfull)]
  -- without a `full` contribution, the second counter counts all that are at least `marginal`
  · have hzero : cs.countP (TrustLevel.full ≤ ·) = 0 := by
      rw [List.countP_eq_zero]
      simpa using hfull
    have hmarginal : (cs.countP fun c => .marginal ≤ c ∧ ¬ .full ≤ c) =
        cs.countP (TrustLevel.marginal ≤ ·) := by
      refine List.countP_congr fun c hc => ?_
      have hnot : ¬ .full ≤ c := fun hle => hfull ⟨c, hc, hle⟩
      simp [hnot]
    have hpos : 1 ≤ cs.countP (TrustLevel.marginal ≤ ·) ↔ ∃ c ∈ cs, TrustLevel.marginal ≤ c := by
      rw [Nat.one_le_iff_ne_zero, ← Nat.pos_iff_ne_zero, List.countP_pos_iff]
      simp
    rw [hzero, hmarginal]
    simp only [hfull, false_or, ge_iff_le, Nat.not_succ_le_self, hpos]

/-- The signature is on the key and contributes at least `level`. -/
def Contributes (trust : String → TrustLevel) (fp : String) (level : TrustLevel)
    (sig : TrustSignature) : Prop :=
  sig.subjectFingerprint = fp ∧ level ≤ trust sig.signerFingerprint ∧ level ≤ sig.level

instance (trust : String → TrustLevel) (fp : String) (level : TrustLevel) :
    DecidablePred (Contributes trust fp level) := fun _ => instDecidableAnd

/-- A contribution comes from a signature. -/
theorem exists_contributions_iff {level : TrustLevel} :
    (∃ c ∈ contributions sigs trust fp, level ≤ c) ↔
      ∃ sig ∈ sigs, Contributes trust fp level sig := by
  simp only [contributions, Contributes, List.mem_map, List.mem_filter, decide_eq_true_eq]
  constructor
  · rintro ⟨c, ⟨sig, ⟨hsig, hsubject⟩, rfl⟩, hle⟩
    exact ⟨sig, hsig, hsubject, le_min_iff.mp hle⟩
  · rintro ⟨sig, hsig, hsubject, hle⟩
    exact ⟨_, ⟨sig, ⟨hsig, hsubject⟩, rfl⟩, le_min_iff.mpr hle⟩

/-- Contributions are counted by signatures. -/
theorem countP_contributions {level : TrustLevel} :
    (contributions sigs trust fp).countP (level ≤ ·) =
      sigs.countP (Contributes trust fp level) := by
  rw [contributions, List.countP_map, List.countP_filter]
  refine List.countP_congr fun sig _ => ?_
  rw [Bool.and_eq_true, Function.comp_apply, decide_eq_true_iff, decide_eq_true_iff,
    decide_eq_true_iff, le_min_iff, and_comm]
  rfl

/-- Full trust takes one full contribution, or two marginal ones. -/
theorem full_le_newLevel_iff :
    .full ≤ newLevel sigs trust fp ↔ (∃ sig ∈ sigs, Contributes trust fp .full sig) ∨
      2 ≤ sigs.countP (Contributes trust fp .marginal) := by
  rw [newLevel_eq_updateRule, updateRule, ← exists_contributions_iff, ← countP_contributions]
  split_ifs with hfull hmarginal
  · exact iff_of_true le_rfl hfull
  · exact iff_of_false (by decide) hfull
  · exact iff_of_false (by decide) hfull

/-- Marginal trust takes one marginal contribution. -/
theorem marginal_le_newLevel_iff :
    .marginal ≤ newLevel sigs trust fp ↔ ∃ sig ∈ sigs, Contributes trust fp .marginal sig := by
  rw [newLevel_eq_updateRule, updateRule, ← exists_contributions_iff]
  split_ifs with hfull hmarginal
  · refine iff_of_true (by decide) ?_
    rcases hfull with ⟨c, hc, hle⟩ | hcount
    · exact ⟨c, hc, le_trans (by decide) hle⟩
    -- two are at least one
    · have hpos := Nat.lt_of_lt_of_le Nat.two_pos hcount
      rw [List.countP_pos_iff] at hpos
      simpa using hpos
  · exact iff_of_true le_rfl hmarginal
  · exact iff_of_false (by decide) hmarginal

/-- The rule never makes a key untrusted. -/
theorem unknown_le_newLevel : .unknown ≤ newLevel sigs trust fp := by
  rw [newLevel]
  dsimp only
  split_ifs <;> decide

/-- The rule never makes a key ultimate. -/
theorem newLevel_le_full : newLevel sigs trust fp ≤ .full := by
  rw [newLevel]
  dsimp only
  split_ifs <;> decide

/-- If everything that contributes is kept and contributes at least as much, the level is not
lower. -/
theorem newLevel_le_newLevel {keep : TrustSignature → Bool}
    (h : ∀ sig ∈ sigs, ∀ level, .marginal ≤ level → Contributes trust fp level sig →
      keep sig = true ∧ Contributes trust' fp level sig) :
    newLevel sigs trust fp ≤ newLevel (sigs.filter keep) trust' fp := by
  have hexists {level : TrustLevel} (hlevel : .marginal ≤ level) :
      (∃ sig ∈ sigs, Contributes trust fp level sig) →
        ∃ sig ∈ sigs.filter keep, Contributes trust' fp level sig := by
    rintro ⟨sig, hsig, hcontributes⟩
    obtain ⟨hkeep, hcontributes'⟩ := h sig hsig level hlevel hcontributes
    exact ⟨sig, List.mem_filter.mpr ⟨hsig, hkeep⟩, hcontributes'⟩
  have hcount : sigs.countP (Contributes trust fp .marginal) ≤
      (sigs.filter keep).countP (Contributes trust' fp .marginal) := by
    rw [List.countP_filter]
    refine List.countP_mono_left fun sig hsig hcontributes => ?_
    obtain ⟨hkeep, hcontributes'⟩ := h sig hsig _ le_rfl (of_decide_eq_true hcontributes)
    simp [hkeep, hcontributes']
  -- the rule asks for one signature or for two, and both requests are met again
  cases hlevel : newLevel sigs trust fp with
  | never => exact le_trans (by decide) unknown_le_newLevel
  | unknown => exact unknown_le_newLevel
  | marginal =>
    exact marginal_le_newLevel_iff.mpr (hexists le_rfl (marginal_le_newLevel_iff.mp hlevel.ge))
  | full =>
    rcases full_le_newLevel_iff.mp hlevel.ge with hfull | hmarginal
    · exact full_le_newLevel_iff.mpr (Or.inl (hexists (by decide) hfull))
    · exact full_le_newLevel_iff.mpr (Or.inr (hmarginal.trans hcount))
  | ultimate =>
    have hle : newLevel sigs trust fp ≤ .full := newLevel_le_full
    rw [hlevel] at hle
    exact absurd hle (by decide)

/-- Leaving signatures out does not raise the level. -/
theorem newLevel_le_of_sublist {sigs' : List TrustSignature} (h : sigs.Sublist sigs') :
    newLevel sigs trust fp ≤ newLevel sigs' trust fp := by
  cases hlevel : newLevel sigs trust fp with
  | never => exact le_trans (by decide) unknown_le_newLevel
  | unknown => exact unknown_le_newLevel
  | marginal =>
    obtain ⟨sig, hsig, hcontributes⟩ := marginal_le_newLevel_iff.mp hlevel.ge
    exact marginal_le_newLevel_iff.mpr ⟨sig, h.subset hsig, hcontributes⟩
  | full =>
    refine full_le_newLevel_iff.mpr ?_
    rcases full_le_newLevel_iff.mp hlevel.ge with ⟨sig, hsig, hcontributes⟩ | hmarginal
    · exact Or.inl ⟨sig, h.subset hsig, hcontributes⟩
    · exact Or.inr (hmarginal.trans h.countP_le)
  | ultimate =>
    have hle : newLevel sigs trust fp ≤ .full := newLevel_le_full
    rw [hlevel] at hle
    exact absurd hle (by decide)

/-- The rule is monotone. -/
theorem newLevel_monotone (sigs : List TrustSignature) : Monotone (newLevel sigs) := by
  intro trust trust' hle fp
  have h : newLevel sigs trust fp ≤ newLevel (sigs.filter fun _ => true) trust' fp :=
    newLevel_le_newLevel fun sig _ level _ hsig =>
      ⟨rfl, hsig.1, hsig.2.1.trans (hle _), hsig.2.2⟩
  rwa [List.filter_true] at h

end Rule

/-! ## Passes -/

/-- One level is set. -/
theorem levelOf_insert (trust : HashMap String TrustLevel) (fp : String) (level : TrustLevel) :
    levelOf (trust.insert fp level) = Function.update (levelOf trust) fp level := by
  funext fp'
  rw [levelOf, HashMap.lookup_insert_ite, Function.update_apply]
  split <;> rfl

namespace WebOfTrust

variable {prim : Primitives} {w : WebOfTrust}

/-- The level of the fingerprint is computed: the key is stored, is not our own and has no
override. -/
def Free (w : WebOfTrust) (fp : String) : Prop :=
  fp ∈ w.keys ∧ fp ∉ w.ownFingerprints ∧ fp ∉ w.manualOverrides

instance (w : WebOfTrust) : DecidablePred w.Free := fun _ => instDecidableAnd

/-- The level before any signature is counted: an override, `ultimate` for our own keys, and
`unknown` for all others. -/
def baseLevel (w : WebOfTrust) (fp : String) : TrustLevel :=
  (w.manualOverrides.lookup fp).getD (if fp ∈ w.ownFingerprints then .ultimate else .unknown)

/-- The map to start from holds the levels to start from. -/
theorem levelOf_baseTrust (w : WebOfTrust) : levelOf w.baseTrust = w.baseLevel := by
  have hown (own : List String) (trust : HashMap String TrustLevel) (fp : String) :
      (own.foldl (fun trust fp => trust.insert fp TrustLevel.ultimate) trust).lookup fp =
        if fp ∈ own then some .ultimate else trust.lookup fp := by
    induction own generalizing trust with
    | nil => rfl
    | cons fp' own ih =>
      rw [List.foldl_cons, ih, HashMap.lookup_insert_ite]
      by_cases hmem : fp ∈ own
      · simp [hmem]
      · by_cases heq : fp = fp' <;> simp [hmem, heq]
  funext fp
  rw [levelOf, baseTrust, HashMap.lookup_foldl_insert_pairs, hown, baseLevel]
  cases w.manualOverrides.lookup fp with
  | some level => rfl
  | none => by_cases hmem : fp ∈ w.ownFingerprints <;> simp [hmem]

/-- The computed levels start at `unknown`. -/
theorem baseLevel_of_free {fp : String} (hown : fp ∉ w.ownFingerprints)
    (hmanual : fp ∉ w.manualOverrides) : w.baseLevel fp = .unknown := by
  rw [baseLevel, AList.lookup_eq_none.mpr hmanual, if_neg hown]
  rfl

/-- A free key starts below what the rule gives it. -/
theorem ascending_baseLevel (sigs : List TrustSignature) :
    Ascending (newLevel sigs) w.Free w.baseLevel := by
  intro fp hfree
  rw [baseLevel_of_free hfree.2.1 hfree.2.2]
  exact unknown_le_newLevel

/-- A step relaxes the level of its key. -/
theorem levelOf_trustStep (sigs : List TrustSignature) {fp : String} (hfp : fp ∈ w.keys)
    (trust : HashMap String TrustLevel) (changed : Bool) :
    levelOf (w.trustStep sigs (trust, changed) fp).1 =
      relax (newLevel sigs) w.Free (levelOf trust) fp := by
  rw [trustStep, relax]
  by_cases hfree : fp ∈ w.ownFingerprints ∨ fp ∈ w.manualOverrides
  · rw [if_pos hfree, if_neg]
    rintro ⟨-, hown, hmanual⟩
    exact hfree.elim hown hmanual
  · rw [if_neg hfree, if_pos (show w.Free fp from ⟨hfp, not_or.mp hfree⟩)]
    split_ifs with hnew
    · rw [levelOf_insert]
    · rw [not_not.mp hnew, Function.update_eq_self]

/-- A step reports a change exactly when it has changed a level. -/
theorem trustStep_snd (w : WebOfTrust) (sigs : List TrustSignature) (fp : String)
    (trust : HashMap String TrustLevel) (changed : Bool) :
    (w.trustStep sigs (trust, changed) fp).2 = true ↔
      changed = true ∨ levelOf (w.trustStep sigs (trust, changed) fp).1 ≠ levelOf trust := by
  rw [trustStep]
  split_ifs with hfree hnew
  · simp
  · refine iff_of_true rfl (Or.inr fun heq => hnew ?_)
    have hvalue := congrFun heq fp
    rwa [levelOf_insert, Function.update_self] at hvalue
  · simp

/-- Visiting a list of stored keys. -/
theorem foldl_trustStep (sigs : List TrustSignature) {l : List String} (hl : ∀ fp ∈ l, fp ∈ w.keys)
    (trust : HashMap String TrustLevel) (changed : Bool) :
    levelOf (l.foldl (w.trustStep sigs) (trust, changed)).1 =
        l.foldl (relax (newLevel sigs) w.Free) (levelOf trust) ∧
      (Ascending (newLevel sigs) w.Free (levelOf trust) →
        ((l.foldl (w.trustStep sigs) (trust, changed)).2 = true ↔ changed = true ∨
          l.foldl (relax (newLevel sigs) w.Free) (levelOf trust) ≠ levelOf trust)) := by
  induction l generalizing trust changed with
  | nil => exact ⟨rfl, fun _ => by simp⟩
  | cons fp l ih =>
    have hstep := levelOf_trustStep sigs (hl fp List.mem_cons_self) trust changed
    have hsnd := trustStep_snd w sigs fp trust changed
    rw [List.foldl_cons, List.foldl_cons, ← hstep]
    obtain ⟨⟨trust', changed'⟩, hresult⟩ : ∃ r, w.trustStep sigs (trust, changed) fp = r := ⟨_, rfl⟩
    rw [hresult] at hstep hsnd ⊢
    obtain ⟨hlevel, hflag⟩ :=
      ih (fun fp' hfp' => hl fp' (List.mem_cons_of_mem _ hfp')) trust' changed'
    refine ⟨hlevel, fun hasc => ?_⟩
    have hasc' : Ascending (newLevel sigs) w.Free (levelOf trust') :=
      hstep ▸ hasc.relax (newLevel_monotone sigs) fp
    rw [hflag hasc', hsnd, or_assoc]
    refine or_congr_right ⟨fun h heq => ?_, fun h => ?_⟩
    -- levels only rise, so a change cannot be undone by a later step
    · have hle : levelOf trust ≤ levelOf trust' := hstep ▸ hasc.le_relax fp
      have hle' := hasc'.le_foldl_relax (newLevel_monotone sigs) l
      have hfirst : levelOf trust' = levelOf trust := le_antisymm (hle'.trans heq.le) hle
      exact h.elim (fun hne => hne hfirst) fun hne => hne (heq.trans hfirst.symm)
    · by_cases hfirst : levelOf trust' = levelOf trust
      · exact Or.inr fun heq => h (heq.trans hfirst)
      · exact Or.inl hfirst

/-- One pass relaxes the levels of all keys, and reports whether a level has changed. -/
theorem levelOf_trustPass (prim : Primitives) (w : WebOfTrust) (order : IterOrder String)
    (trust : HashMap String TrustLevel) :
    levelOf (w.trustPass prim order trust).1 = (order.visit w.keys.keys).foldl
        (relax (newLevel (w.validSigs prim)) w.Free) (levelOf trust) ∧
      (Ascending (newLevel (w.validSigs prim)) w.Free (levelOf trust) →
        ((w.trustPass prim order trust).2 = true ↔
          levelOf (w.trustPass prim order trust).1 ≠ levelOf trust)) := by
  have hvisit : ∀ fp ∈ order.visit w.keys.keys, fp ∈ w.keys := fun fp hfp =>
    AList.mem_keys.mpr (order.mem_visit.mp hfp)
  obtain ⟨hlevel, hflag⟩ := foldl_trustStep (w.validSigs prim) hvisit trust false
  refine ⟨hlevel, fun hasc => ?_⟩
  rw [trustPass, hflag hasc, hlevel]
  simp

/-- Invariant of the loop: the levels approximate the least solution, and computed levels are at
most `full`. -/
structure LoopInv (prim : Primitives) (w : WebOfTrust) (trust : HashMap String TrustLevel) :
    Prop where
  approximates : Approximates (newLevel (w.validSigs prim)) w.Free w.baseLevel (levelOf trust)
  le_full : ∀ fp, w.Free fp → levelOf trust fp ≤ .full
  frame : ∀ fp, ¬ w.Free fp → levelOf trust fp = w.baseLevel fp

/-- The loop has not done anything yet. -/
theorem loopInv_baseTrust : LoopInv prim w w.baseTrust := by
  refine ⟨?_, fun fp hfree => ?_, fun fp _ => by rw [levelOf_baseTrust]⟩
  · rw [levelOf_baseTrust]
    exact .refl (ascending_baseLevel _)
  · rw [levelOf_baseTrust, baseLevel_of_free hfree.2.1 hfree.2.2]
    decide

/-- A pass stays on the way to the least solution. -/
theorem LoopInv.trustPass {trust : HashMap String TrustLevel} (h : LoopInv prim w trust)
    (order : IterOrder String) : LoopInv prim w (w.trustPass prim order trust).1 := by
  have hmono := newLevel_monotone (w.validSigs prim)
  have hlevel := (levelOf_trustPass prim w order trust).1
  refine ⟨?_, fun fp hfree => ?_, fun fp hfree => ?_⟩
  · rw [hlevel]
    exact h.approximates.foldl_relax hmono _
  -- the pass stays below the levels with every computed level replaced by `full`
  · let cap : String → TrustLevel := fun fp => if w.Free fp then .full else levelOf trust fp
    have hrule : ∀ fp, w.Free fp → newLevel (w.validSigs prim) cap fp ≤ cap fp := by
      intro fp hfree
      rw [show cap fp = .full from if_pos hfree]
      exact newLevel_le_full
    have hcap : levelOf trust ≤ cap := by
      intro fp
      by_cases hfree : w.Free fp
      · rw [show cap fp = .full from if_pos hfree]
        exact h.le_full fp hfree
      · rw [show cap fp = levelOf trust fp from if_neg hfree]
    rw [hlevel, show TrustLevel.full = cap fp from (if_pos hfree).symm]
    exact foldl_relax_le hmono hrule hcap _ fp
  · rw [hlevel, foldl_relax_of_not_free hfree]
    exact h.frame fp hfree

/-! ## The loop -/

/-- The fingerprints whose level is computed. -/
def freeKeys (w : WebOfTrust) : Finset String := w.keys.keys.toFinset.filter w.Free

/-- The keys that a pass visits. -/
theorem mem_freeKeys {fp : String} : fp ∈ w.freeKeys ↔ w.Free fp := by
  rw [freeKeys, Finset.mem_filter, List.mem_toFinset, ← AList.mem_keys]
  exact and_iff_right_of_imp And.left

/-- What the loop has left to raise: at most two levels for each key. -/
theorem deficit_baseTrust_le (w : WebOfTrust) :
    deficit TrustLevel.rank 3 w.freeKeys (levelOf w.baseTrust) ≤ 2 * w.keys.keys.length := by
  have hsum : deficit TrustLevel.rank 3 w.freeKeys (levelOf w.baseTrust) =
      ∑ _fp ∈ w.freeKeys, 2 := by
    refine Finset.sum_congr rfl fun fp hfp => ?_
    have hfree := mem_freeKeys.mp hfp
    rw [levelOf_baseTrust, baseLevel_of_free hfree.2.1 hfree.2.2]
    rfl
  have hcard : w.freeKeys.card ≤ w.keys.keys.length :=
    (Finset.card_filter_le _ _).trans (List.toFinset_card_le _)
  rw [hsum, Finset.sum_const, smul_eq_mul]
  omega

/-- A pass with a change uses up some of that. -/
theorem LoopInv.deficit_lt {trust : HashMap String TrustLevel} (h : LoopInv prim w trust)
    {order : IterOrder String} (hchanged : (w.trustPass prim order trust).2 = true) :
    deficit TrustLevel.rank 3 w.freeKeys (levelOf (w.trustPass prim order trust).1) <
      deficit TrustLevel.rank 3 w.freeKeys (levelOf trust) := by
  obtain ⟨hlevel, hflag⟩ := levelOf_trustPass prim w order trust
  have hinv := h.trustPass order
  refine deficit_lt_of_le_of_ne TrustLevel.rank_strictMono ?_
    (Ne.symm ((hflag h.approximates.ascending).mp hchanged)) (fun fp hfp => ?_) fun fp hfp => ?_
  · rw [hlevel]
    exact h.approximates.ascending.le_foldl_relax (newLevel_monotone _) _
  · have hfree : ¬ w.Free fp := fun hfree => hfp (mem_freeKeys.mpr hfree)
    rw [hinv.frame fp hfree, h.frame fp hfree]
  · exact TrustLevel.rank_strictMono.monotone (hinv.le_full fp (mem_freeKeys.mp hfp))

/-- The loop ends, in levels at which the rule holds. -/
theorem trustLoop_eq_some (prim : Primitives) (w : WebOfTrust) (orders : ℕ → IterOrder String)
    {fuel : ℕ} (hfuel : 2 * w.keys.keys.length < fuel) :
    ∃ trust, w.trustLoop prim orders fuel = some trust ∧ LoopInv prim w trust ∧
      ∀ fp, w.Free fp → levelOf trust fp = newLevel (w.validSigs prim) (levelOf trust) fp := by
  obtain ⟨trust, j, trust', hloop, hinv, hpass⟩ := loopUntil_eq_some
    (fun trust => deficit TrustLevel.rank 3 w.freeKeys (levelOf trust))
    (fun i trust (h : LoopInv prim w trust) => h.trustPass (orders i))
    (fun i trust h hchanged => h.deficit_lt hchanged) loopInv_baseTrust
    (Nat.lt_of_le_of_lt w.deficit_baseTrust_le hfuel) 0
  obtain ⟨hlevel, hflag⟩ := levelOf_trustPass prim w (orders j) trust'
  have hinv' := hinv.trustPass (orders j)
  rw [hpass] at hlevel hflag hinv'
  refine ⟨trust, hloop, hinv', fun fp hfree => ?_⟩
  -- the last pass has changed nothing
  have hsame : levelOf trust = levelOf trust' := by
    by_contra hne
    exact Bool.false_ne_true ((hflag hinv.approximates.ascending).mpr hne)
  rw [hsame]
  refine hinv.approximates.ascending.eq_of_foldl_eq (newLevel_monotone _)
    (hlevel.symm.trans hsame) fp ?_ hfree
  exact (orders j).mem_visit.mpr (AList.mem_keys.mp hfree.1)

/-- What the computed table is. -/
theorem computeTrustMap_spec (prim : Primitives) (w : WebOfTrust)
    (orders : ℕ → IterOrder String) :
    (∀ fuel, 2 * w.keys.keys.length < fuel →
        w.trustLoop prim orders fuel = some (w.computeTrustMap prim orders)) ∧
      LoopInv prim w (w.computeTrustMap prim orders) ∧
      ∀ fp, w.Free fp → levelOf (w.computeTrustMap prim orders) fp =
        newLevel (w.validSigs prim) (levelOf (w.computeTrustMap prim orders)) fp := by
  obtain ⟨trust, hloop, hinv, hfixed⟩ := trustLoop_eq_some prim w orders (Nat.lt_succ_self _)
  have hcompute : w.computeTrustMap prim orders = trust := by
    rw [computeTrustMap, hloop, Option.getD_some]
  rw [hcompute]
  exact ⟨fun fuel hfuel => loopUntil_mono hloop hfuel, hinv, hfixed⟩

/-- The computed levels are the least solution of the rule. -/
theorem isLeast_computeTrustMap (prim : Primitives) (w : WebOfTrust)
    (orders : ℕ → IterOrder String) :
    IsLeast (Solutions (updateRule (w.validSigs prim)) w.Free w.baseLevel)
      (levelOf (w.computeTrustMap prim orders)) := by
  obtain ⟨-, hinv, hfixed⟩ := computeTrustMap_spec prim w orders
  rw [← newLevel_eq_updateRule]
  exact hinv.approximates.isLeast hfixed

end WebOfTrust

end ChronoShift
