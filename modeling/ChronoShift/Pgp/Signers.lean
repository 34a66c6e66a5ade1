import ChronoShift.Pgp.TrustChains

/-!
# What signatures add to trust

More signatures that verify never lower a level: the levels of the larger graph satisfy its rule,
so the rule of the smaller graph does not lead above them.

Recording refuses a second signature of a signer on a key, but a list that is loaded is taken as it
is, and the computation counts the entries of the list. `Earns` counts signers instead: two
signatures that grant `marginal` give `full` only if they come from two signers. The computed levels
are earned ones as long as no entry of the list is needed twice.

* `WebOfTrust.trust_monotone`: a recorded signature lowers no level, a removed one raises none;
* `WebOfTrust.fullFromTwoSigners_iff`: when `full` comes from two signers.
-/

namespace ChronoShift

open ToMathlib

/-- Two entries of a list satisfy a predicate unless no two do. -/
theorem two_le_countP_iff {α : Type*} {p : α → Prop} [DecidablePred p] {l : List α} :
    2 ≤ l.countP p ↔ ¬ l.Pairwise fun a b => ¬ (p a ∧ p b) := by
  induction l with
  | nil => simp
  | cons a l ih =>
    rw [List.countP_cons, List.pairwise_cons]
    by_cases ha : p a
    · have hpos : 0 < l.countP p ↔ ∃ b ∈ l, p b := by simp [List.countP_pos_iff]
      simp only [ha, true_and, decide_true, if_true]
      constructor
      · rintro hcount ⟨hnone, -⟩
        obtain ⟨b, hb, hpb⟩ := hpos.mp (by omega)
        exact hnone b hb hpb
      · intro hnot
        by_contra hlt
        have hnone : ¬ ∃ b ∈ l, p b := fun h => hlt (by have := hpos.mpr h; omega)
        refine hnot ⟨fun b hb hpb => hnone ⟨b, hb, hpb⟩, ?_⟩
        exact List.pairwise_of_forall_mem_list fun b hb c _ hbc => hnone ⟨b, hb, hbc.1⟩
    · simp [ha, ih]

namespace WebOfTrust

variable {prim : Primitives} {w : WebOfTrust}

/-! ## Monotonicity -/

/-- A signature that is recorded comes after the ones that are there; nothing else changes. -/
theorem addSignature_eq_true {sig : TrustSignature} (h : (w.addSignature prim sig).1 = true) :
    w.signatureIsValid prim sig = true ∧ (w.addSignature prim sig).2 =
      { w with signatures := w.signatures ++ [sig] }.invalidateCache := by
  rw [addSignature] at h ⊢
  split_ifs at h ⊢ with hkeys hduplicate hvalid
  exact ⟨hvalid, rfl⟩

/-- A recorded signature lowers no level. -/
theorem freshTrust_le_addSignature {sig : TrustSignature}
    (h : (w.addSignature prim sig).1 = true) :
    w.freshTrust prim ≤ (w.addSignature prim sig).2.freshTrust prim := by
  rw [(addSignature_eq_true h).2]
  exact freshTrust_le_of_sublist rfl rfl rfl ((List.sublist_append_left _ _).filter _)

/-- A removed signature raises no level. -/
theorem freshTrust_removeSignature_le (prim : Primitives) (w : WebOfTrust)
    (signerFp subjectFp : String) :
    (w.removeSignature signerFp subjectFp).freshTrust prim ≤ w.freshTrust prim :=
  freshTrust_le_of_sublist rfl rfl rfl (List.filter_sublist.filter _)

/-- Trust is monotone in the signatures. For every Web of Trust and every fingerprint: no signature
that is accepted leaves a lower level than before, and no removal a higher one. -/
theorem trust_monotone (prim : Primitives) (w : WebOfTrust) (hw : w.Built prim)
    (orders orders' : ℕ → IterOrder String) (fp : String) :
    (∀ sig, (w.addSignature prim sig).1 = true → (w.calculateTrust prim orders fp).1 ≤
        ((w.addSignature prim sig).2.calculateTrust prim orders' fp).1) ∧
      ∀ signerFp subjectFp,
        ((w.removeSignature signerFp subjectFp).calculateTrust prim orders' fp).1 ≤
          (w.calculateTrust prim orders fp).1 := by
  refine ⟨fun sig haccepted => ?_, fun signerFp subjectFp => ?_⟩
  · have hadded : (w.addSignature prim sig).2.Coherent prim := hw.coherent.call (.addSignature sig)
    rw [(calculateTrust_spec hw.coherent orders fp).1, (calculateTrust_spec hadded orders' fp).1]
    exact freshTrust_le_addSignature haccepted fp
  · have hremoved : (w.removeSignature signerFp subjectFp).Coherent prim :=
      coherent_invalidateCache
    rw [(calculateTrust_spec hw.coherent orders fp).1, (calculateTrust_spec hremoved orders' fp).1]
    exact freshTrust_removeSignature_le prim w signerFp subjectFp fp

/-- The signature that `alice` makes on the key of `bob`. -/
def aliceOnBob (trustLevel : UInt8) : TrustSignature :=
  .create headPrimitives (Vector.replicate 32 0xaa) alicePgp.fingerprint bobPgp.fingerprint
    trustLevel 0

/-- The signature of `alice` lifts `bob` from no trust; taking it back lifts nobody. -/
theorem trust_monotone_bob :
    ((new.run headPrimitives [.addOwnKey alicePgp, .addKey bobPgp]).calculateTrust headPrimitives
        (fun _ => .stored) bobPgp.fingerprint).1 ≤
      (((new.run headPrimitives [.addOwnKey alicePgp, .addKey bobPgp]).addSignature headPrimitives
        (aliceOnBob 2)).2.calculateTrust headPrimitives (fun _ => .stored) bobPgp.fingerprint).1 ∧
    (((new.run headPrimitives (aliceSignsBob 2)).removeSignature alicePgp.fingerprint
        bobPgp.fingerprint).calculateTrust headPrimitives (fun _ => .stored)
          bobPgp.fingerprint).1 ≤
      ((new.run headPrimitives (aliceSignsBob 2)).calculateTrust headPrimitives
        (fun _ => .stored) bobPgp.fingerprint).1 :=
  ⟨(trust_monotone headPrimitives _ ⟨new, [.addOwnKey alicePgp, .addKey bobPgp], rfl⟩
      (fun _ => .stored) (fun _ => .stored) bobPgp.fingerprint).1 (aliceOnBob 2)
      (by decide +kernel),
    (trust_monotone headPrimitives _ ⟨new, aliceSignsBob 2, rfl⟩ (fun _ => .stored)
      (fun _ => .stored) bobPgp.fingerprint).2 alicePgp.fingerprint bobPgp.fingerprint⟩

/-! ## Counting signers -/

/-- The key earns the level when every signer is counted once: from its base level, from one
signature that grants the level and whose signer earns it, or, up to `full`, from two signatures of
different signers that grant `marginal` and whose signers earn that. -/
inductive Earns (prim : Primitives) (w : WebOfTrust) : String → TrustLevel → Prop
  | base {fp : String} {level : TrustLevel} (hfree : ¬ w.Free fp) (hle : level ≤ w.baseLevel fp) :
      Earns prim w fp level
  | one {fp : String} {level : TrustLevel} {sig : TrustSignature} (hfree : w.Free fp)
      (hsig : sig ∈ w.validSigs prim) (hsubject : sig.subjectFingerprint = fp)
      (hgrants : level ≤ sig.level) (hle : level ≤ .full)
      (hsigner : Earns prim w sig.signerFingerprint level) : Earns prim w fp level
  | two {fp : String} {sig sig' : TrustSignature} (hfree : w.Free fp)
      (hsig : sig ∈ w.validSigs prim) (hsig' : sig' ∈ w.validSigs prim)
      (hne : sig.signerFingerprint ≠ sig'.signerFingerprint)
      (hsubject : sig.subjectFingerprint = fp) (hsubject' : sig'.subjectFingerprint = fp)
      (hgrants : .marginal ≤ sig.level) (hgrants' : .marginal ≤ sig'.level)
      (hsigner : Earns prim w sig.signerFingerprint .marginal)
      (hsigner' : Earns prim w sig'.signerFingerprint .marginal) : Earns prim w fp .full

/-- The signature is on the key and grants `marginal`, and its signer earns that. -/
def EarnedVote (prim : Primitives) (w : WebOfTrust) (fp : String) (sig : TrustSignature) : Prop :=
  sig.subjectFingerprint = fp ∧ .marginal ≤ sig.level ∧
    w.Earns prim sig.signerFingerprint .marginal

/-- A fingerprint whose level is not computed earns its level and everything below. -/
theorem earns_of_imp {fp : String} {level : TrustLevel} (hle : level ≤ w.freshTrust prim fp)
    (h : w.Free fp → w.Earns prim fp level) : w.Earns prim fp level := by
  by_cases hfree : w.Free fp
  · exact h hfree
  · exact .base hfree (freshTrust_of_not_free hfree ▸ hle)

/-- A key that earns `full` earns `marginal`. -/
theorem Earns.marginal {fp : String} {level : TrustLevel} (h : w.Earns prim fp level)
    (hlevel : .marginal ≤ level) : w.Earns prim fp .marginal := by
  induction h with
  | base hfree hle => exact .base hfree (hlevel.trans hle)
  | one hfree hsig hsubject hgrants _ _ ih =>
    exact .one hfree hsig hsubject (hlevel.trans hgrants) (by decide) (ih hlevel)
  | two hfree hsig _ _ hsubject _ hgrants _ hsigner _ _ _ =>
    exact .one hfree hsig hsubject hgrants (by decide) hsigner

/-- Two signatures of different signers are two entries of the list. -/
theorem two_le_countP_of_ne {sigs : List TrustSignature} {p : TrustSignature → Prop}
    [DecidablePred p] {sig sig' : TrustSignature} (hsig : sig ∈ sigs) (hsig' : sig' ∈ sigs)
    (hne : sig.signerFingerprint ≠ sig'.signerFingerprint) (hp : p sig) (hp' : p sig') :
    2 ≤ sigs.countP p := by
  by_contra hlt
  have hpairwise := not_not.mp (two_le_countP_iff.not.mp hlt)
  have hsymm : Std.Symm fun a b => ¬ (p a ∧ p b) := ⟨fun a b h hba => h hba.symm⟩
  exact hpairwise.forall hsig hsig' (fun heq => hne (congrArg _ heq)) ⟨hp, hp'⟩

/-- What is earned is computed. -/
theorem Earns.le_freshTrust {fp : String} {level : TrustLevel} (h : w.Earns prim fp level) :
    level ≤ w.freshTrust prim fp := by
  induction h with
  | base hfree hle =>
    rw [freshTrust_of_not_free hfree]
    exact hle
  | @one fp level sig hfree hsig hsubject hgrants hle _ ih =>
    rw [freshTrust_of_free hfree]
    have hcontributes : Contributes (w.freshTrust prim) fp level sig := ⟨hsubject, ih, hgrants⟩
    cases level with
    | never => exact le_trans (by decide) unknown_le_newLevel
    | unknown => exact unknown_le_newLevel
    | marginal => exact marginal_le_newLevel_iff.mpr ⟨sig, hsig, hcontributes⟩
    | full => exact full_le_newLevel_iff.mpr (Or.inl ⟨sig, hsig, hcontributes⟩)
    | ultimate => exact absurd hle (by decide)
  | two hfree hsig hsig' hne hsubject hsubject' hgrants hgrants' _ _ ih ih' =>
    rw [freshTrust_of_free hfree]
    exact full_le_newLevel_iff.mpr (Or.inr (two_le_countP_of_ne hsig hsig' hne
      ⟨hsubject, ih, hgrants⟩ ⟨hsubject', ih', hgrants'⟩))

/-- Up to `marginal`, counting entries and counting signers are the same. -/
theorem earns_marginal_iff {fp : String} :
    w.Earns prim fp .marginal ↔ .marginal ≤ w.freshTrust prim fp := by
  classical
  refine ⟨Earns.le_freshTrust, fun hle => earns_of_imp hle fun hfree => ?_⟩
  by_contra hnot
  -- the keys that do not earn `marginal` could all stay at their base levels
  have hbase : w.freshTrust prim fp ≤ w.baseLevel fp := by
    refine freshTrust_le_of_not (P := fun fp => w.Earns prim fp .marginal) w.baseLevel
      (fun fp _ => (isLeast_computeTrustMap prim w _).1.1 fp) (fun fp _ => le_rfl)
      (fun fp hfp hfree => ?_) hnot
    rw [baseLevel_of_free hfree.2.1 hfree.2.2]
    by_contra hlt
    obtain ⟨sig, hsig, hsubject, hsigner, hgrants⟩ :=
      marginal_le_newLevel_iff.mp (TrustLevel.marginal_le_of_not_le hlt)
    refine hfp (.one hfree hsig hsubject hgrants (by decide) ?_)
    dsimp only at hsigner
    split_ifs at hsigner with hearns
    · exact hearns
    · by_cases hsignerfree : w.Free sig.signerFingerprint
      · rw [baseLevel_of_free hsignerfree.2.1 hsignerfree.2.2] at hsigner
        exact absurd hsigner (by decide)
      · exact .base hsignerfree hsigner
  rw [baseLevel_of_free hfree.2.1 hfree.2.2] at hbase
  exact absurd (hle.trans hbase) (by decide)

/-- The signatures that the computation counts are the earned ones. -/
theorem contributes_marginal_iff {fp : String} {sig : TrustSignature} :
    Contributes (w.freshTrust prim) fp .marginal sig ↔ w.EarnedVote prim fp sig := by
  rw [Contributes, EarnedVote, earns_marginal_iff, and_comm (a := _ ≤ sig.level)]

/-- No key needs two entries of one signer for `full`: on a key that does not earn `full`, no signer
has two earned signatures. -/
def NoDoubleCount (prim : Primitives) (w : WebOfTrust) : Prop :=
  ∀ fp, w.Free fp → ¬ w.Earns prim fp .full →
    (w.validSigs prim).Pairwise fun sig sig' =>
      sig.signerFingerprint = sig'.signerFingerprint →
        ¬ (w.EarnedVote prim fp sig ∧ w.EarnedVote prim fp sig')

/-- Two earned signatures of different signers give `full`. -/
theorem EarnedVote.earns_full {fp : String} {sig sig' : TrustSignature} (hfree : w.Free fp)
    (hsig : sig ∈ w.validSigs prim) (hsig' : sig' ∈ w.validSigs prim)
    (hne : sig.signerFingerprint ≠ sig'.signerFingerprint) (h : w.EarnedVote prim fp sig)
    (h' : w.EarnedVote prim fp sig') : w.Earns prim fp .full :=
  .two hfree hsig hsig' hne h.1 h'.1 h.2.1 h'.2.1 h.2.2 h'.2.2

/-- So a key that does not earn `full` has at most one earned signature. -/
theorem NoDoubleCount.pairwise (h : w.NoDoubleCount prim) {fp : String} (hfree : w.Free fp)
    (hnot : ¬ w.Earns prim fp .full) : (w.validSigs prim).Pairwise fun sig sig' =>
      ¬ (w.EarnedVote prim fp sig ∧ w.EarnedVote prim fp sig') := by
  refine (h fp hfree hnot).imp_of_mem fun {sig sig'} hsig hsig' hsame hboth => ?_
  by_cases hsigner : sig.signerFingerprint = sig'.signerFingerprint
  · exact hsame hsigner hboth
  · exact hnot (hboth.1.earns_full hfree hsig hsig' hsigner hboth.2)

/-- From levels below the computed ones, in which `full` is earned, the rule gives `full` only where
it is earned. -/
theorem NoDoubleCount.newLevel_le_marginal (h : w.NoDoubleCount prim)
    {trust : String → TrustLevel} (hle : trust ≤ w.freshTrust prim)
    (hearned : ∀ fp, .full ≤ trust fp → w.Earns prim fp .full) {fp : String} (hfree : w.Free fp)
    (hnot : ¬ w.Earns prim fp .full) : newLevel (w.validSigs prim) trust fp ≤ .marginal := by
  refine TrustLevel.le_marginal_of_not_le fun hfull => ?_
  rcases full_le_newLevel_iff.mp hfull with ⟨sig, hsig, hsubject, hsigner, hgrants⟩ | hcount
  · exact hnot (.one hfree hsig hsubject hgrants le_rfl (hearned _ hsigner))
  · have hvote {sig : TrustSignature} (hsig : Contributes trust fp .marginal sig) :
        w.EarnedVote prim fp sig :=
      contributes_marginal_iff.mp ⟨hsig.1, hsig.2.1.trans (hle _), hsig.2.2⟩
    refine two_le_countP_iff.mp hcount ((h.pairwise hfree hnot).imp fun hvotes hboth => ?_)
    exact hvotes ⟨hvote hboth.1, hvote hboth.2⟩

/-- Then every computed `full` is earned. -/
theorem NoDoubleCount.earns_full (h : w.NoDoubleCount prim) {fp : String} (hfree : w.Free fp)
    (hfull : .full ≤ w.freshTrust prim fp) : w.Earns prim fp .full := by
  classical
  by_contra hnot
  let lower (fp : String) : TrustLevel := min (w.freshTrust prim fp) .marginal
  have hlower : ∀ fp, ¬ (w.Free fp → w.Earns prim fp .full) → lower fp ≤ w.freshTrust prim fp :=
    fun fp _ => min_le_left _ _
  -- the keys that do not earn `full` could all stay at `marginal`
  have hmarginal : w.freshTrust prim fp ≤ lower fp := by
    refine freshTrust_le_of_not (P := fun fp => w.Free fp → w.Earns prim fp .full) lower hlower
      (fun fp hfp => ?_) (fun fp hfp hfree => le_min ?_ ?_) fun himp => hnot (himp hfree)
    · have hfree := (Classical.not_imp.mp hfp).1
      rw [baseLevel_of_free hfree.2.1 hfree.2.2]
      refine le_min ?_ (by decide)
      rw [freshTrust_of_free hfree]
      exact unknown_le_newLevel
    · rw [freshTrust_of_free hfree]
      exact newLevel_monotone _ (ite_le_freshTrust hlower) fp
    · refine h.newLevel_le_marginal (ite_le_freshTrust hlower) (fun fp' hfull' => ?_) hfree
        (Classical.not_imp.mp hfp).2
      split_ifs at hfull' with himp
      · exact earns_of_imp hfull' himp
      · exact absurd (hfull'.trans (min_le_right _ _)) (by decide)
  exact absurd (hfull.trans (hmarginal.trans (min_le_right _ _))) (by decide)

/-! ## `full` from two signers -/

/-- A computed `full` comes from a signature that contributes `full` or from two that contribute
`marginal` and have different signers. -/
def FullFromTwoSigners (prim : Primitives) (w : WebOfTrust) (trust : String → TrustLevel) : Prop :=
  ∀ fp, fp ∉ w.ownFingerprints → fp ∉ w.manualOverrides → trust fp = .full →
    (∃ sig ∈ w.validSigs prim, Contributes trust fp .full sig) ∨
      ∃ sig ∈ w.validSigs prim, ∃ sig' ∈ w.validSigs prim,
        sig.signerFingerprint ≠ sig'.signerFingerprint ∧
          Contributes trust fp .marginal sig ∧ Contributes trust fp .marginal sig'

/-- A key that is `full` without being our own or overridden is stored. -/
theorem free_of_freshTrust_eq_full {fp : String} (hown : fp ∉ w.ownFingerprints)
    (hmanual : fp ∉ w.manualOverrides) (hfull : w.freshTrust prim fp = .full) : w.Free fp := by
  by_contra hfree
  rw [freshTrust_of_not_free hfree, baseLevel_of_free hown hmanual] at hfull
  exact absurd hfull (by decide)

theorem NoDoubleCount.fullFromTwoSigners (h : w.NoDoubleCount prim) :
    w.FullFromTwoSigners prim (w.freshTrust prim) := by
  intro fp hown hmanual hfull
  have hfree := free_of_freshTrust_eq_full hown hmanual hfull
  cases h.earns_full hfree hfull.ge with
  | base hnot => exact absurd hfree hnot
  | @one _ _ sig _ hsig hsubject hgrants _ hsigner =>
    exact Or.inl ⟨sig, hsig, hsubject, hsigner.le_freshTrust, hgrants⟩
  | @two _ sig sig' _ hsig hsig' hne hsubject hsubject' hgrants hgrants' hsigner hsigner' =>
    exact Or.inr ⟨sig, hsig, sig', hsig', hne, ⟨hsubject, hsigner.le_freshTrust, hgrants⟩,
      hsubject', hsigner'.le_freshTrust, hgrants'⟩

theorem freshTrust_le_full {fp : String} (hfree : w.Free fp) : w.freshTrust prim fp ≤ .full := by
  rw [freshTrust_of_free hfree]
  exact newLevel_le_full

/-- If every computed `full` comes from two signers, then every computed `full` is earned. -/
theorem FullFromTwoSigners.earns_full (h : w.FullFromTwoSigners prim (w.freshTrust prim))
    {fp : String} {level : TrustLevel} (hearns : w.Earns prim fp level) (hlevel : .marginal ≤ level)
    (hfree : w.Free fp) (hfull : w.freshTrust prim fp = .full) : w.Earns prim fp .full := by
  induction hearns with
  | base hnot => exact absurd hfree hnot
  | two hfree hsig hsig' hne hsubject hsubject' hgrants hgrants' hsigner hsigner' =>
    exact .two hfree hsig hsig' hne hsubject hsubject' hgrants hgrants' hsigner hsigner'
  | @one fp level sig _ hsig hsubject hgrants _ hsigner ih =>
    have hvote : w.EarnedVote prim fp sig :=
      ⟨hsubject, hlevel.trans hgrants, hsigner.marginal hlevel⟩
    rcases h fp hfree.2.1 hfree.2.2 hfull with ⟨sig', hsig', hcontributes⟩ | htwo
    · by_cases hne : sig.signerFingerprint = sig'.signerFingerprint
      -- the signer that contributes `full` is the one whose level was earned first
      · refine .one hfree hsig' hcontributes.1 hcontributes.2.2 le_rfl ?_
        have hsignerfull := hcontributes.2.1
        rw [← hne] at hsignerfull ⊢
        exact earns_of_imp hsignerfull fun hsignerfree =>
          ih hlevel hsignerfree (le_antisymm (freshTrust_le_full hsignerfree) hsignerfull)
      · exact hvote.earns_full hfree hsig hsig' hne (contributes_marginal_iff.mp
          ⟨hcontributes.1, le_trans (by decide) hcontributes.2.1,
            le_trans (by decide) hcontributes.2.2⟩)
    · obtain ⟨sig₁, hsig₁, sig₂, hsig₂, hne, hcontributes₁, hcontributes₂⟩ := htwo
      exact (contributes_marginal_iff.mp hcontributes₁).earns_full hfree hsig₁ hsig₂ hne
        (contributes_marginal_iff.mp hcontributes₂)

theorem FullFromTwoSigners.noDoubleCount (h : w.FullFromTwoSigners prim (w.freshTrust prim)) :
    w.NoDoubleCount prim := by
  classical
  intro fp hfree hnot
  -- two earned signatures, of whatever signers, would give a `full` that is not earned
  have hlt : ¬ 2 ≤ (w.validSigs prim).countP (w.EarnedVote prim fp) := by
    intro hcount
    have hfull : w.freshTrust prim fp = .full := by
      refine le_antisymm (freshTrust_le_full hfree) ?_
      rw [freshTrust_of_free hfree]
      refine full_le_newLevel_iff.mpr (Or.inr ?_)
      simpa only [contributes_marginal_iff] using hcount
    have hmarginal : w.Earns prim fp .marginal :=
      earns_marginal_iff.mpr (hfull ▸ (by decide : TrustLevel.marginal ≤ .full))
    exact hnot (h.earns_full hmarginal le_rfl hfree hfull)
  have hpairwise := not_not.mp (two_le_countP_iff.not.mp hlt)
  refine hpairwise.imp fun hvotes => ?_
  exact fun _ => hvotes

/-- When two marginals mean two signers. For every Web of Trust, whatever signatures its list
holds: every key that is neither our own nor overridden and is `full` has a verifying signature that
contributes `full` or two of different signers that contribute `marginal`, exactly if no signer has
two verifying signatures that grant `marginal` on one key, while the signer earns `marginal` and the
key does not earn `full`. -/
theorem fullFromTwoSigners_iff (prim : Primitives) (w : WebOfTrust)
    (orders : ℕ → IterOrder String) :
    w.FullFromTwoSigners prim (levelOf (w.computeTrustMap prim orders)) ↔
      w.NoDoubleCount prim := by
  rw [levelOf_computeTrustMap]
  exact ⟨FullFromTwoSigners.noDoubleCount, NoDoubleCount.fullFromTwoSigners⟩

/-- A saved graph in which one signature of our own key `alice` on the key of `bob` is listed
twice. -/
def listedTwice : WebOfTrust :=
  { new.run headPrimitives [.addOwnKey alicePgp, .addKey bobPgp] with
    signatures := [aliceOnBob 1, aliceOnBob 1] }

/-- Listed twice, one signature that grants `marginal` gives `full`. -/
theorem not_fullFromTwoSigners :
    ¬ listedTwice.FullFromTwoSigners headPrimitives
      (levelOf (listedTwice.computeTrustMap headPrimitives fun _ => .stored)) := by
  intro hclaim
  rcases hclaim bobPgp.fingerprint (by decide +kernel) (by decide +kernel) (by decide +kernel)
    with hfull | htwo
  · exact absurd hfull (by decide +kernel)
  · exact absurd htwo (by decide +kernel)

/-! ## Lists that were recorded -/

/-- No signer has two signatures on one key. -/
def SignersDistinct (w : WebOfTrust) : Prop :=
  w.signatures.Pairwise fun sig sig' => ¬ (sig.signerFingerprint = sig'.signerFingerprint ∧
    sig.subjectFingerprint = sig'.subjectFingerprint)

theorem SignersDistinct.noDoubleCount (h : w.SignersDistinct) : w.NoDoubleCount prim := by
  intro fp _ _
  refine (List.Pairwise.sublist List.filter_sublist h).imp fun hdistinct hsigner hboth => ?_
  exact hdistinct ⟨hsigner, hboth.1.1.trans hboth.2.1.symm⟩

theorem signatures_calculateTrust (w : WebOfTrust) (orders : ℕ → IterOrder String) (fp : String) :
    (w.calculateTrust prim orders fp).2.signatures = w.signatures := by
  have hsignatures := congrArg signatures (invalidateCache_calculateTrust prim w orders fp)
  exact hsignatures

/-- Every call keeps the signers of a key distinct. -/
theorem SignersDistinct.call (h : w.SignersDistinct) (c : WotCall) :
    (w.call prim c).SignersDistinct := by
  cases c with
  | addSignature sig =>
    rw [WebOfTrust.call, addSignature]
    split_ifs with hkeys hduplicate hvalid
    · exact h
    · exact h
    -- an accepted signature is the first of its signer on its key
    · refine List.pairwise_append.mpr ⟨h, List.pairwise_singleton _ _, fun sig' hsig' s hs => ?_⟩
      obtain rfl := List.mem_singleton.mp hs
      intro hsame
      refine hduplicate (List.any_eq_true.mpr ⟨sig', hsig', ?_⟩)
      simpa using hsame
    · exact h
  | removeSignature signerFp subjectFp => exact List.Pairwise.sublist List.filter_sublist h
  | keysAtLevel orders order min =>
    refine keysAtLevel_induct (I := SignersDistinct) h orders order min fun w' fp hw' => ?_
    rw [SignersDistinct, signatures_calculateTrust]
    exact hw'
  | calculateTrust orders fp =>
    rw [WebOfTrust.call, SignersDistinct, signatures_calculateTrust]
    exact h
  | _ => exact h

/-- So a graph that was built by calls alone counts no signer twice. -/
theorem noDoubleCount_run (prim : Primitives) (calls : List WotCall) :
    (new.run prim calls).NoDoubleCount prim := by
  suffices hrun : ∀ w : WebOfTrust, w.SignersDistinct → (w.run prim calls).SignersDistinct from
    (hrun new List.Pairwise.nil).noDoubleCount
  induction calls with
  | nil => exact fun w hw => hw
  | cons c calls ih => exact fun w hw => ih _ (hw.call c)

end WebOfTrust

end ChronoShift
