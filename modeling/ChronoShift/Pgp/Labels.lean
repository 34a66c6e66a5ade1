import ChronoShift.Pgp.TrustPath

/-!
# Shortened labels

Three functions show the first and the last bytes of a long text. They slice the text at fixed byte
positions, and a slice inside a character is a panic. `Identity::public_hex_short` tests that the
text is ASCII, so it never cuts a character. `PgpIdentity::fingerprint_short` and the
`fingerprint_short` of the Web of Trust do not, and their texts may come from an imported identity.

* `Identity.exists_publicHexShort`: the function that tests its text;
* `PgpIdentity.exists_fingerprintShort_iff`: the keys that are shown;
* `labels_shortened_iff`: the Webs of Trust in which every trust path is shown, as well.
-/

namespace ChronoShift

open ToMathlib

/-- `Identity::public_hex_short`. -/
def Identity.publicHexShort (id : Identity) : Option String :=
  let h := id.publicHex
  -- a tampered text is shown as it is
  if (asBytes h).length < 8 ∨ ¬ h.toList.all (fun c => c.toNat < 128) then some h
  else showEnds 8 "..." h

/-- `PgpIdentity::fingerprint_short`: the first and the last eight bytes of the key's text. -/
def PgpIdentity.fingerprintShort (identity : PgpIdentity) : Option String :=
  shorten 16 8 "..." identity.publicKeyHex

/-- The test for ASCII keeps the slices out of characters. -/
theorem Identity.exists_publicHexShort (id : Identity) :
    ∃ label, id.publicHexShort = some label := by
  rw [publicHexShort]
  split
  next => exact ⟨_, rfl⟩
  next hguard =>
    rw [not_or, not_lt, not_not, List.all_eq_true] at hguard
    have hascii : ∀ c ∈ id.publicHex.toList, c.toNat < 128 := fun c hc =>
      of_decide_eq_true (hguard.2 c hc)
    exact (exists_showEnds_iff hguard.1).mpr
      -- both cuts are inside the text, which has eight bytes at least
      ⟨charBoundary_of_ascii hascii hguard.1, charBoundary_of_ascii hascii (Nat.sub_le _ _)⟩

theorem PgpIdentity.exists_fingerprintShort_iff {identity : PgpIdentity} :
    (∃ label, identity.fingerprintShort = some label) ↔
      EndsCuttable 16 8 identity.publicKeyHex :=
  exists_shorten_iff (by decide)

namespace WebOfTrust

variable {prim : Primitives} {w : WebOfTrust} {order : IterOrder String}

/-- Every trust path is shown if and only if no signed key that is reached from an own key has a
fingerprint with a character across a cut. -/
theorem forall_exists_trustPath_iff :
    (∀ fp, ∃ shown, w.trustPath prim order fp = some shown) ↔
      ∀ path fp, PathFrom (w.Signed prim) w.ownFingerprints path fp → EndsCuttable 12 6 fp := by
  constructor
  · intro hshown path fp hpath
    obtain ⟨shown, hshown⟩ := hshown fp
    rw [trustPath] at hshown
    split at hshown
    next =>
      obtain ⟨short, hshort, -⟩ := Option.map_eq_some_iff.mp hshown
      exact exists_fingerprintShort_iff.mp ⟨short, hshort⟩
    next =>
      rcases (trustPathLoop_spec prim w order fp (Nat.lt_succ_self _)).2 with
        ⟨found, hsearch, hshortest⟩ | ⟨-, hnone⟩
      -- the fingerprint is the end of the path that is found, so it is shortened, too
      · rw [hsearch] at hshown
        exact exists_fingerprintShort_iff.mp
          (exists_mapM_eq_some_iff.mp ⟨shown, hshown⟩ fp hshortest.isPath.end_mem)
      · exact absurd hpath (hnone path)
  · intro hcuttable fp
    rw [trustPath]
    split
    next hown =>
      obtain ⟨short, hshort⟩ := exists_fingerprintShort_iff.mpr (hcuttable _ fp (.source hown))
      rw [hshort]
      exact ⟨_, rfl⟩
    next =>
      rcases (trustPathLoop_spec prim w order fp (Nat.lt_succ_self _)).2 with
        ⟨path, hsearch, hshortest⟩ | ⟨hsearch, -⟩
      -- every fingerprint on the path is reached, by the front of the path that leads to it
      · rw [hsearch]
        refine exists_mapM_eq_some_iff.mpr fun a ha => exists_fingerprintShort_iff.mpr ?_
        obtain ⟨front, hfront⟩ := hshortest.isPath.exists_of_mem ha
        exact hcuttable front a hfront
      · rw [hsearch]
        exact ⟨_, rfl⟩

end WebOfTrust

/-- When labels are shortened without a panic. The label of an identity's key: exactly if the text
of the key has at most 16 bytes, or no character lies across the end of the first eight or the start
of the last eight. The trust paths of a Web of Trust, for every target: exactly if every fingerprint
that stored signatures which verify lead to from an own key, the own keys among them, has at most
twelve bytes, or no character across the end of the first six or the start of the last six. -/
theorem labels_shortened_iff (prim : Primitives) (identity : PgpIdentity) (w : WebOfTrust)
    (order : IterOrder String) :
    ((∃ label, identity.fingerprintShort = some label) ↔
      EndsCuttable 16 8 identity.publicKeyHex) ∧
    ((∀ fp, ∃ shown, w.trustPath prim order fp = some shown) ↔
      ∀ path fp, PathFrom (w.Signed prim) w.ownFingerprints path fp → EndsCuttable 12 6 fp) :=
  ⟨PgpIdentity.exists_fingerprintShort_iff, WebOfTrust.forall_exists_trustPath_iff⟩

/-- What `eve` claims: texts with a character of two bytes across a cut. -/
def evePgp : PgpIdentity := ⟨"eve", "aaaaaaaébbbbbbbb", "aaaaaébbbbbb", 0⟩

/-- The text that `eve` hands out. -/
def eveText : String :=
  "\x7b\"user_id\":\"eve\",\"public_key_hex\":\"" ++ evePgp.publicKeyHex ++
    "\",\"fingerprint\":\"" ++ evePgp.fingerprint ++ "\",\"created\":0\x7d"

/-- Reads the text of `eve`. -/
def eveFromStr (text : String) : Except String PgpIdentity :=
  if text = eveText then .ok evePgp else .error "expected value at line 1 column 1"

/-- `alice` is our own key, and has signed the fingerprint that `eve` claims. -/
def aliceSignsEve : List WotCall :=
  [.addOwnKey WebOfTrust.alicePgp, .addKey evePgp, .addSignature (.create WebOfTrust.headPrimitives
    (Vector.replicate 32 0xaa) WebOfTrust.alicePgp.fingerprint evePgp.fingerprint 2 0)]

/-- The import accepts the text of `eve`, and neither the label of the key nor the trust path to it
can be shown. -/
theorem labels_not_shortened_eve :
    PgpIdentity.importIdentity eveFromStr eveText = .ok evePgp ∧
    evePgp.fingerprintShort = none ∧
    (WebOfTrust.new.run WebOfTrust.headPrimitives aliceSignsEve).trustPath
      WebOfTrust.headPrimitives .stored evePgp.fingerprint = none := by
  refine ⟨by decide +kernel, by decide +kernel, by decide +kernel⟩

end ChronoShift
