import ChronoShift.Pgp.TrustRuns
import Mathlib.Logic.Relation

/-!
# Where trust comes from

Levels are the least solution of the rule, so what holds of some assignment that the rule does not
raise holds of the levels. With the levels of all keys that no chain of signatures reaches set to
`unknown`, this shows that trust comes from our own keys and from overrides along such chains.

A key's own signatures do not change whether the key is trusted at all. They can come back to it,
though: a key that has `marginal` from one signature gets `full` from a second one of its own, or
of a key that it has vouched for.

* `WebOfTrust.exists_chain_of_trusted`: a trusted key is reached from a root of trust;
* `WebOfTrust.own_signatures_effect`: what a key's own signatures do to its level.
-/

namespace ChronoShift

open ToMathlib

namespace WebOfTrust

variable {prim : Primitives} {w : WebOfTrust}

/-- A stored signature of one key on another one verifies and grants a level. -/
def Vouches (prim : Primitives) (w : WebOfTrust) (signerFp subjectFp : String) : Prop :=
  ∃ sig ∈ w.signatures, sig.signerFingerprint = signerFp ∧ sig.subjectFingerprint = subjectFp ∧
    w.signatureIsValid prim sig = true ∧ sig.trustLevel ∈ ([1, 2, 3] : List UInt8)

/-- An own key that is not overridden below `marginal`, or a key that is overridden to `marginal`
or above. -/
def TrustRoot (w : WebOfTrust) (fp : String) : Prop :=
  (fp ∈ w.ownFingerprints ∧ ∀ level, w.manualOverrides.lookup fp = some level → .marginal ≤ level) ∨
    ∃ level, w.manualOverrides.lookup fp = some level ∧ .marginal ≤ level

/-- Only the levels 1, 2 and 3 of a signature grant anything. -/
theorem trustLevel_mem_of_marginal_le {sig : TrustSignature} (h : .marginal ≤ sig.level) :
    sig.trustLevel ∈ ([1, 2, 3] : List UInt8) := by
  have hvalue : (sig.trustLevel.toNat : ℤ) = 1 ∨ (sig.trustLevel.toNat : ℤ) = 2 ∨
      (sig.trustLevel.toNat : ℤ) = 3 := TrustLevel.eq_of_marginal_le_fromI32 h
  simp only [List.mem_cons, List.not_mem_nil, or_false, ← UInt8.toNat_inj]
  simpa using (by omega : sig.trustLevel.toNat = 1 ∨ sig.trustLevel.toNat = 2 ∨
    sig.trustLevel.toNat = 3)

/-- A signature that contributes is a step of a chain. -/
theorem vouches_of_contributes {trust : String → TrustLevel} {fp : String} {level : TrustLevel}
    {sig : TrustSignature} (h : Contributes trust fp level sig) (hlevel : .marginal ≤ level)
    (hsig : sig ∈ w.validSigs prim) : w.Vouches prim sig.signerFingerprint fp := by
  obtain ⟨hmem, hvalid⟩ := List.mem_filter.mp hsig
  exact ⟨sig, hmem, rfl, h.1, hvalid, trustLevel_mem_of_marginal_le (hlevel.trans h.2.2)⟩

/-- A key whose level is not computed and that is trusted is a root of trust. -/
theorem trustRoot_of_marginal_le {fp : String} (hfree : ¬ w.Free fp)
    (htrust : .marginal ≤ w.freshTrust prim fp) : w.TrustRoot fp := by
  rw [freshTrust_of_not_free hfree, baseLevel] at htrust
  cases hmanual : w.manualOverrides.lookup fp with
  | some level =>
    rw [hmanual] at htrust
    exact Or.inr ⟨level, hmanual, htrust⟩
  | none =>
    rw [hmanual, Option.getD_none] at htrust
    split at htrust
    next hown => exact Or.inl ⟨hown, fun level hlevel => by simp [hmanual] at hlevel⟩
    next => exact absurd htrust (by decide)

/-- Lowering levels where `P` does not hold. -/
theorem ite_le_freshTrust {P : String → Prop} [DecidablePred P] {lower : String → TrustLevel}
    (hle : ∀ fp, ¬ P fp → lower fp ≤ w.freshTrust prim fp) :
    (fun fp => if P fp then w.freshTrust prim fp else lower fp) ≤ w.freshTrust prim := by
  intro fp
  dsimp only
  split
  next => exact le_rfl
  next hfp => exact hle fp hfp

/-- Levels that are lowered where `P` does not hold still bound the computed ones, if the rule does
not lead above them there. -/
theorem freshTrust_le_of_not {P : String → Prop} [DecidablePred P] (lower : String → TrustLevel)
    (hle : ∀ fp, ¬ P fp → lower fp ≤ w.freshTrust prim fp)
    (hbase : ∀ fp, ¬ P fp → w.baseLevel fp ≤ lower fp)
    (hrule : ∀ fp, ¬ P fp → w.Free fp → newLevel (w.validSigs prim)
      (fun fp' => if P fp' then w.freshTrust prim fp' else lower fp') fp ≤ lower fp)
    {fp : String} (hfp : ¬ P fp) : w.freshTrust prim fp ≤ lower fp := by
  let trust (fp : String) : TrustLevel := if P fp then w.freshTrust prim fp else lower fp
  have htrust {fp : String} (hfp : P fp) : trust fp = w.freshTrust prim fp := if_pos hfp
  have hlower {fp : String} (hfp : ¬ P fp) : trust fp = lower fp := if_neg hfp
  have hle' : trust ≤ w.freshTrust prim := ite_le_freshTrust hle
  rw [← hlower hfp]
  refine freshTrust_le (fun fp' => ?_) (fun fp' hfree => ?_) fp
  · by_cases hfp' : P fp'
    · rw [htrust hfp']
      exact (isLeast_computeTrustMap prim w _).1.1 fp'
    · rw [hlower hfp']
      exact hbase fp' hfp'
  · by_cases hfp' : P fp'
    · rw [htrust hfp', freshTrust_of_free hfree]
      exact newLevel_monotone _ hle' fp'
    · rw [hlower hfp']
      exact hrule fp' hfp' hfree

/-- A trusted key is reached from a root of trust by signatures of trusted keys. -/
theorem exists_chain_of_marginal_le {fp : String} (hfree : w.Free fp)
    (htrust : .marginal ≤ w.freshTrust prim fp) :
    ∃ root, w.TrustRoot root ∧ Relation.TransGen
      (fun a b => w.Vouches prim a b ∧ .marginal ≤ w.freshTrust prim a) root fp := by
  classical
  let Reached (fp : String) : Prop := ∃ root, w.TrustRoot root ∧ Relation.TransGen
    (fun a b => w.Vouches prim a b ∧ .marginal ≤ w.freshTrust prim a) root fp
  by_contra hnot
  -- the keys that are not reached could all be `unknown`
  have hunknown : w.freshTrust prim fp ≤ .unknown := by
    refine freshTrust_le_of_not (P := fun fp => w.Free fp → Reached fp) (fun _ => .unknown)
      (fun fp hfp => ?_) (fun fp hfp => ?_) (fun fp hfp hfree => ?_) fun h => hnot (h hfree)
    · rw [freshTrust_of_free (Classical.not_imp.mp hfp).1]
      exact unknown_le_newLevel
    · obtain ⟨hfree, -⟩ := Classical.not_imp.mp hfp
      rw [baseLevel_of_free hfree.2.1 hfree.2.2]
    -- a signature that contributes to a key comes from a root or from a key that is reached
    · by_contra hlt
      obtain ⟨sig, hsig, hcontributes⟩ :=
        marginal_le_newLevel_iff.mp (TrustLevel.marginal_le_of_not_le hlt)
      have hvouches := vouches_of_contributes hcontributes le_rfl hsig
      have hsigner := hcontributes.2.1
      dsimp only at hsigner
      refine hfp fun _ => ?_
      split_ifs at hsigner with hreached
      · by_cases hsignerfree : w.Free sig.signerFingerprint
        · obtain ⟨root, hroot, hchain⟩ := hreached hsignerfree
          exact ⟨root, hroot, hchain.tail ⟨hvouches, hsigner⟩⟩
        · exact ⟨sig.signerFingerprint, trustRoot_of_marginal_le hsignerfree hsigner,
            .single ⟨hvouches, hsigner⟩⟩
      · exact absurd hsigner (by decide)
  exact absurd (htrust.trans hunknown) (by decide)

/-- Trust has a source. For every Web of Trust and every fingerprint that is neither our own nor
overridden: if its level is at least `marginal`, a chain of stored signatures, each verifying under
its signer's stored key and granting a level of 1, 2 or 3, leads to it from an own key not
overridden below `marginal` or from a key overridden to `marginal` or above, and every key on the
way has a level of at least `marginal`. -/
theorem exists_chain_of_trusted (prim : Primitives) (w : WebOfTrust) (hw : w.Built prim)
    (orders : ℕ → IterOrder String) (fp : String) (hown : fp ∉ w.ownFingerprints)
    (hmanual : fp ∉ w.manualOverrides)
    (htrust : .marginal ≤ (w.calculateTrust prim orders fp).1) :
    ∃ root, w.TrustRoot root ∧ Relation.TransGen (fun a b => w.Vouches prim a b ∧
      .marginal ≤ (w.calculateTrust prim orders a).1) root fp := by
  simp only [(calculateTrust_spec hw.coherent orders _).1] at htrust ⊢
  by_cases hkey : fp ∈ w.keys
  · exact exists_chain_of_marginal_le ⟨hkey, hown, hmanual⟩ htrust
  -- a key that is not stored is unknown
  · rw [freshTrust_of_not_free fun hfree => hkey hfree.1, baseLevel_of_free hown hmanual] at htrust
    exact absurd htrust (by decide)

/-- The identity of `bob`. -/
def bobPgp : PgpIdentity :=
  .fromParts headPrimitives 0 "bob" (hexEncode (List.replicate 32 0xbb))

/-- `alice` is our own key, and has signed the key of `bob`. -/
def aliceSignsBob (trustLevel : UInt8) : List WotCall :=
  [.addOwnKey alicePgp, .addKey bobPgp, .addSignature (.create headPrimitives
    (Vector.replicate 32 0xaa) alicePgp.fingerprint bobPgp.fingerprint trustLevel 0)]

/-- A key that our own key has signed is reached from it. -/
theorem exists_chain_of_trusted_bob :
    ∃ root, (new.run headPrimitives (aliceSignsBob 2)).TrustRoot root ∧ Relation.TransGen
      (fun a b => (new.run headPrimitives (aliceSignsBob 2)).Vouches headPrimitives a b ∧
        .marginal ≤ ((new.run headPrimitives (aliceSignsBob 2)).calculateTrust headPrimitives
          (fun _ => .stored) a).1) root bobPgp.fingerprint :=
  exists_chain_of_trusted headPrimitives (new.run headPrimitives (aliceSignsBob 2))
    ⟨new, aliceSignsBob 2, rfl⟩ (fun _ => .stored) bobPgp.fingerprint (by decide +kernel)
    (by decide +kernel) (by decide +kernel)

/-! ## A key's own signatures -/

/-- The graph without the signatures that a key has made. -/
def withoutSignaturesBy (w : WebOfTrust) (signerFp : String) : WebOfTrust :=
  { w with signatures := w.signatures.filter fun sig =>
      sig.signerFingerprint ≠ signerFp }.invalidateCache

theorem validSigs_withoutSignaturesBy (prim : Primitives) (w : WebOfTrust) (signerFp : String) :
    (w.withoutSignaturesBy signerFp).validSigs prim =
      (w.validSigs prim).filter fun sig => sig.signerFingerprint ≠ signerFp := by
  rw [validSigs, validSigs, withoutSignaturesBy, invalidateCache, List.filter_filter,
    List.filter_filter]
  refine List.filter_congr fun sig _ => ?_
  rw [Bool.and_comm]
  rfl

/-- Without its signatures, no key has a higher level. -/
theorem freshTrust_withoutSignaturesBy_le (prim : Primitives) (w : WebOfTrust)
    (signerFp : String) :
    (w.withoutSignaturesBy signerFp).freshTrust prim ≤ w.freshTrust prim := by
  refine freshTrust_le_of_sublist rfl rfl rfl ?_
  rw [validSigs_withoutSignaturesBy]
  exact List.filter_sublist

theorem freshTrust_withoutSignaturesBy_of_free {signerFp fp : String} (hfree : w.Free fp) :
    (w.withoutSignaturesBy signerFp).freshTrust prim fp =
      newLevel ((w.validSigs prim).filter fun sig => sig.signerFingerprint ≠ signerFp)
        ((w.withoutSignaturesBy signerFp).freshTrust prim) fp := by
  rw [← validSigs_withoutSignaturesBy]
  exact freshTrust_of_free (w := w.withoutSignaturesBy signerFp) hfree

/-- The signatures of a key that is not trusted without them change nothing at all. -/
theorem freshTrust_withoutSignaturesBy_of_lt {signerFp : String}
    (hlt : ¬ .marginal ≤ (w.withoutSignaturesBy signerFp).freshTrust prim signerFp) :
    w.freshTrust prim = (w.withoutSignaturesBy signerFp).freshTrust prim := by
  refine le_antisymm (freshTrust_le (isLeast_computeTrustMap prim
    (w.withoutSignaturesBy signerFp) _).1.1 fun fp hfree => ?_)
    (freshTrust_withoutSignaturesBy_le prim w signerFp)
  rw [freshTrust_withoutSignaturesBy_of_free hfree]
  refine newLevel_le_newLevel fun sig _ level hlevel hcontributes => ⟨?_, hcontributes⟩
  refine decide_eq_true fun hsigner => hlt ?_
  exact hlevel.trans (hsigner ▸ hcontributes.2.1)

/-- The signatures of a key change its level only if they come back to it. -/
theorem freshTrust_withoutSignaturesBy_of_not_cycle {signerFp : String}
    (hcycle : ¬ Relation.TransGen (w.Vouches prim) signerFp signerFp) :
    w.freshTrust prim signerFp = (w.withoutSignaturesBy signerFp).freshTrust prim signerFp := by
  classical
  refine le_antisymm ?_ (freshTrust_withoutSignaturesBy_le prim w signerFp signerFp)
  refine freshTrust_le_of_not (P := Relation.TransGen (w.Vouches prim) signerFp) _
    (fun fp _ => freshTrust_withoutSignaturesBy_le prim w signerFp fp)
    (fun fp _ => (isLeast_computeTrustMap prim (w.withoutSignaturesBy signerFp) _).1.1 fp)
    (fun fp hfp hfree => ?_) hcycle
  -- who contributes to a key that is not reached is neither the signer nor reached
  rw [freshTrust_withoutSignaturesBy_of_free hfree]
  refine newLevel_le_newLevel fun sig hsig level hlevel hcontributes => ?_
  have hvouches := vouches_of_contributes hcontributes hlevel hsig
  have hsigner : sig.signerFingerprint ≠ signerFp :=
    fun heq => hfp (.single (heq ▸ hvouches))
  have hreached : ¬ Relation.TransGen (w.Vouches prim) signerFp sig.signerFingerprint :=
    fun hreached => hfp (hreached.tail hvouches)
  have hlevel' := hcontributes.2.1
  dsimp only at hlevel'
  rw [if_neg hreached] at hlevel'
  exact ⟨decide_eq_true hsigner, hcontributes.1, hlevel', hcontributes.2.2⟩

/-- A trusted key is `full` exactly if the rule gives that to it while its level is held at
`marginal`. -/
theorem freshTrust_eq_full_iff {fp : String} (hfree : w.Free fp)
    (htrust : .marginal ≤ w.freshTrust prim fp) :
    w.freshTrust prim fp = .full ↔ updateRule (w.validSigs prim)
      ((w.setManualTrust fp .marginal).freshTrust prim) fp = .full := by
  rw [← newLevel_eq_updateRule]
  have hheld : (w.setManualTrust fp .marginal).freshTrust prim fp = .marginal :=
    freshTrust_of_override (AList.lookup_insert _)
  have hbaseLevel {fp' : String} (hne : fp' ≠ fp) :
      (w.setManualTrust fp .marginal).baseLevel fp' = w.baseLevel fp' := by
    rw [baseLevel, setManualTrust, invalidateCache, HashMap.lookup_insert_ite, if_neg hne]
    rfl
  constructor
  · intro hfull
    refine le_antisymm newLevel_le_full ?_
    by_contra hlt
    -- if the rule does not raise the held level, the computed levels are below the held ones
    suffices hle : w.freshTrust prim ≤ (w.setManualTrust fp .marginal).freshTrust prim by
      have hfp : TrustLevel.full ≤ .marginal := hfull ▸ hheld ▸ hle fp
      exact absurd hfp (by decide)
    refine freshTrust_le ?_ ?_
    · intro fp'
      by_cases hne : fp' = fp
      · subst hne
        rw [hheld, baseLevel_of_free hfree.2.1 hfree.2.2]
        show TrustLevel.unknown ≤ .marginal
        decide
      · rw [← hbaseLevel hne]
        exact (isLeast_computeTrustMap prim (w.setManualTrust fp .marginal) _).1.1 fp'
    · intro fp' hfree'
      by_cases hne : fp' = fp
      · subst hne
        rw [hheld]
        exact TrustLevel.le_marginal_of_not_le hlt
      · have hheldfree : (w.setManualTrust fp .marginal).Free fp' :=
          ⟨hfree'.1, hfree'.2.1, fun hmem =>
            (AList.mem_insert _).mp hmem |>.elim hne hfree'.2.2⟩
        exact (freshTrust_of_free hheldfree).ge
  · intro hfull
    -- the held levels are below the computed ones
    have hle : (w.setManualTrust fp .marginal).freshTrust prim ≤ w.freshTrust prim := by
      refine freshTrust_le (fun fp' => ?_) fun fp' hfree' => ?_
      · by_cases hne : fp' = fp
        · subst hne
          rw [baseLevel, setManualTrust, invalidateCache, AList.lookup_insert]
          exact htrust
        · rw [hbaseLevel hne]
          exact (isLeast_computeTrustMap prim w _).1.1 fp'
      · have hfree'' : w.Free fp' := ⟨hfree'.1, hfree'.2.1, fun hmem =>
          hfree'.2.2 ((AList.mem_insert _).mpr (Or.inr hmem))⟩
        exact (freshTrust_of_free hfree'').ge
    refine le_antisymm ?_ ?_
    · rw [freshTrust_of_free hfree]
      exact newLevel_le_full
    · rw [← hfull, freshTrust_of_free hfree]
      exact newLevel_monotone _ hle fp

/-- What the signatures of a key do to its own level. For every Web of Trust and every fingerprint
that is neither our own nor overridden, the level is the same without them, unless it is `marginal`
without them, `full` with them, and a chain of stored signatures leads from the key back to itself.
A key that is `marginal` without them is `full` with them exactly if the rule gives it `full` while
its level is held at `marginal`. -/
theorem own_signatures_effect (prim : Primitives) (w : WebOfTrust) (hw : w.Built prim)
    (orders orders' : ℕ → IterOrder String) (fp : String) (hown : fp ∉ w.ownFingerprints)
    (hmanual : fp ∉ w.manualOverrides) :
    ((w.calculateTrust prim orders fp).1 =
        ((w.withoutSignaturesBy fp).calculateTrust prim orders' fp).1 ∨
      ((w.withoutSignaturesBy fp).calculateTrust prim orders' fp).1 = .marginal ∧
        (w.calculateTrust prim orders fp).1 = .full ∧
        Relation.TransGen (w.Vouches prim) fp fp) ∧
    (((w.withoutSignaturesBy fp).calculateTrust prim orders' fp).1 = .marginal →
      ((w.calculateTrust prim orders fp).1 = .full ↔ updateRule (w.validSigs prim)
        (fun fp' => ((w.setManualTrust fp .marginal).calculateTrust prim orders fp').1) fp =
          .full)) := by
  have hwithout : (w.withoutSignaturesBy fp).Coherent prim := coherent_invalidateCache
  have hheld : (w.setManualTrust fp .marginal).Coherent prim := coherent_invalidateCache
  simp only [(calculateTrust_spec hw.coherent orders _).1,
    (calculateTrust_spec hwithout orders' _).1, (calculateTrust_spec hheld orders _).1]
  have hle : (w.withoutSignaturesBy fp).freshTrust prim fp ≤ w.freshTrust prim fp :=
    freshTrust_withoutSignaturesBy_le prim w fp fp
  by_cases htrust : .marginal ≤ (w.withoutSignaturesBy fp).freshTrust prim fp
  · have hfree : w.Free fp := by
      refine ⟨?_, hown, hmanual⟩
      by_contra hkey
      have hunknown := hle
      rw [freshTrust_of_not_free fun hfree => hkey hfree.1, baseLevel_of_free hown hmanual]
        at hunknown
      exact absurd (htrust.trans hunknown) (by decide)
    refine ⟨or_iff_not_imp_left.mpr fun hne => ?_, fun _ =>
      freshTrust_eq_full_iff hfree (htrust.trans hle)⟩
    -- from `marginal` there is one level to gain
    have hfull : w.freshTrust prim fp ≤ .full := by
      rw [freshTrust_of_free hfree]
      exact newLevel_le_full
    obtain ⟨hwithout, hwith⟩ := TrustLevel.eq_marginal_and_eq_full htrust
      (lt_of_le_of_ne hle (Ne.symm hne)) hfull
    refine ⟨hwithout, hwith, ?_⟩
    by_contra hcycle
    exact hne (freshTrust_withoutSignaturesBy_of_not_cycle hcycle)
  · refine ⟨Or.inl ?_, fun hmarginal => absurd hmarginal.ge htrust⟩
    rw [freshTrust_withoutSignaturesBy_of_lt htrust]

/-- `alice` has vouched for `bob`, and `bob` for himself. -/
def bobSignsHimself : List WotCall :=
  aliceSignsBob 1 ++ [.addSignature (.create headPrimitives (Vector.replicate 32 0xbb)
    bobPgp.fingerprint bobPgp.fingerprint 1 0)]

/-- The signature of `bob` on himself comes back to him. -/
theorem own_signatures_effect_bob :
    Relation.TransGen ((new.run headPrimitives bobSignsHimself).Vouches headPrimitives)
      bobPgp.fingerprint bobPgp.fingerprint := by
  obtain ⟨heffect, -⟩ := own_signatures_effect headPrimitives
    (new.run headPrimitives bobSignsHimself) ⟨new, bobSignsHimself, rfl⟩ (fun _ => .stored)
    (fun _ => .stored) bobPgp.fingerprint (by decide +kernel) (by decide +kernel)
  exact (heffect.resolve_left (by decide +kernel)).2.2

/-- It makes him `full`, where he is `marginal` without it. -/
theorem not_own_signatures_ineffective :
    ¬ ∀ (prim : Primitives) (w : WebOfTrust), w.Built prim → ∀ (orders : ℕ → IterOrder String)
      (fp : String), fp ∉ w.ownFingerprints → fp ∉ w.manualOverrides →
        (w.calculateTrust prim orders fp).1 =
          ((w.withoutSignaturesBy fp).calculateTrust prim orders fp).1 := by
  intro hclaim
  have heq := hclaim headPrimitives (new.run headPrimitives bobSignsHimself)
    ⟨new, bobSignsHimself, rfl⟩ (fun _ => .stored) bobPgp.fingerprint (by decide +kernel)
    (by decide +kernel)
  exact absurd heq (by decide +kernel)

end WebOfTrust

end ChronoShift
