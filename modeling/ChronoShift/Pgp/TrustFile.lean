import ChronoShift.IdentityFile
import ChronoShift.Pgp.TrustChains

/-!
# The file of the Web of Trust

A node reads its Web of Trust from `wot.json` when it starts, if there is one, and adds the key of
its identity as a key of its own (`AppState::new_with_port`). When it shuts down it writes the Web
of Trust back, in place, after the identity (`AppState::drop`). The cache is not written.

No key of our own is ever removed, and nothing but the start of a process adds one. So the keys
that are trusted ultimately are those of the identities the node has had since `wot.json` was lost
the last time, among them keys that it has lost.

* `NodeRun.ultimate_iff`: which keys are trusted ultimately, for every sequence of process runs;
* `NodeRun.levels_restart`: what a restart does to the levels of the other keys.
-/

namespace ChronoShift

open ToMathlib CrashProgram

/-- The cache of a Web of Trust is skipped in its text. -/
abbrev WotSerde := FileSerde WebOfTrust

namespace WebOfTrust

/-- The Web of Trust of a node that starts: what is saved, if anything, with our own key. -/
def load (prim : Primitives) (serde : WotSerde) (created : ℕ) (id : Identity)
    (file : Option Bytes) : WebOfTrust :=
  match serde.read file with
  | some saved => saved.addOwnKey (.fromIdentity prim created id)
  | none => new.addOwnKey (.fromIdentity prim created id)

/-- The part of `drop` that writes the Web of Trust. -/
def save (serde : WotSerde) (w : WebOfTrust) : CrashProgram KeyFileOp (Option Bytes) Bool :=
  Identity.writePrivateFile (asBytes (serde.encode w.invalidateCache))

/-- Our own fingerprints in what is saved. -/
def savedFingerprints (serde : WotSerde) (file : Option Bytes) : List String :=
  match serde.read file with
  | some saved => saved.ownFingerprints
  | none => []

variable {prim : Primitives} {serde : WotSerde} {w : WebOfTrust} {file : Option Bytes}

/-! ## Our own keys -/

/-- The own keys after one more is added. -/
theorem mem_ownFingerprints_addOwnKey {identity : PgpIdentity} {fp : String} :
    fp ∈ (w.addOwnKey identity).ownFingerprints ↔
      fp = identity.fingerprint ∨ fp ∈ w.ownFingerprints := by
  show fp ∈ w.ownFingerprints.insert identity.fingerprint ↔ _
  exact List.mem_insert_iff

/-- The own keys of a loaded web: that of the identity, and those of the file. -/
theorem mem_ownFingerprints_load {created : ℕ} {id : Identity} {fp : String} :
    fp ∈ (load prim serde created id file).ownFingerprints ↔
      fp = fingerprintOfPublicHex prim id.publicHex ∨ fp ∈ savedFingerprints serde file := by
  rw [load, savedFingerprints]
  cases serde.read file with
  | some saved => exact mem_ownFingerprints_addOwnKey
  | none => exact mem_ownFingerprints_addOwnKey

/-- A query changes the cache alone. -/
theorem ownFingerprints_calculateTrust (w : WebOfTrust) (orders : ℕ → IterOrder String)
    (fp : String) : (w.calculateTrust prim orders fp).2.ownFingerprints = w.ownFingerprints := by
  have hown := congrArg ownFingerprints (invalidateCache_calculateTrust prim w orders fp)
  exact hown

/-- Only `add_own_key` changes our own keys. -/
theorem ownFingerprints_call {c : WotCall} (hc : ∀ identity, c ≠ .addOwnKey identity) :
    (w.call prim c).ownFingerprints = w.ownFingerprints := by
  cases c with
  | addOwnKey identity => exact absurd rfl (hc identity)
  | addSignature sig =>
    rw [WebOfTrust.call, addSignature]
    split_ifs <;> rfl
  | keysAtLevel orders order min =>
    refine keysAtLevel_induct (I := fun w' => w'.ownFingerprints = w.ownFingerprints) rfl orders
      order min ?_
    exact fun w' fp hw' => (ownFingerprints_calculateTrust w' orders fp).trans hw'
  | calculateTrust orders fp => exact ownFingerprints_calculateTrust w orders fp
  | _ => rfl

/-- Calls that add no own key leave the own keys as they are. -/
theorem ownFingerprints_run {calls : List WotCall}
    (hcalls : ∀ c ∈ calls, ∀ identity, c ≠ .addOwnKey identity) :
    (w.run prim calls).ownFingerprints = w.ownFingerprints := by
  induction calls generalizing w with
  | nil => rfl
  | cons c calls ih =>
    obtain ⟨hc, hcalls⟩ := List.forall_mem_cons.mp hcalls
    exact (ih hcalls).trans (ownFingerprints_call hc)

/-- A key without an override is trusted ultimately exactly if it is our own: signatures give no
more than `full`. -/
theorem freshTrust_eq_ultimate_iff {fp : String} (hmanual : fp ∉ w.manualOverrides) :
    w.freshTrust prim fp = .ultimate ↔ fp ∈ w.ownFingerprints := by
  constructor
  · intro htrust
    by_contra hown
    by_cases hfree : w.Free fp
    · rw [freshTrust_of_free hfree] at htrust
      have hle : TrustLevel.ultimate ≤ .full := htrust ▸ newLevel_le_full
      exact absurd hle (by decide)
    · rw [freshTrust_of_not_free hfree, baseLevel_of_free hown hmanual] at htrust
      cases htrust
  · exact fun hown => freshTrust_of_own hown (AList.lookup_eq_none.mpr hmanual)

/-! ## The other keys -/

/-- The rule looks at the levels of signers only. -/
theorem newLevel_congr {sigs : List TrustSignature} {trust trust' : String → TrustLevel}
    {fp : String} (h : ∀ sig ∈ sigs, trust sig.signerFingerprint = trust' sig.signerFingerprint) :
    newLevel sigs trust fp = newLevel sigs trust' fp := by
  rw [newLevel_eq_updateRule]
  have hsame : contributions sigs trust fp = contributions sigs trust' fp :=
    List.map_congr_left fun sig hsig => by rw [h sig (List.mem_of_mem_filter hsig)]
  rw [updateRule, updateRule, hsame]

/-- Either the key is our own already, and is stored, or it is unknown: it is not stored, and
nothing has been signed with it. -/
def OwnOrUnknown (w : WebOfTrust) (identity : PgpIdentity) : Prop :=
  (identity.fingerprint ∈ w.ownFingerprints ∧
      (w.keys.lookup identity.fingerprint).map (·.publicKeyHex) = some identity.publicKeyHex) ∨
    identity.fingerprint ∉ w.keys ∧
      ∀ sig ∈ w.signatures, sig.signerFingerprint ≠ identity.fingerprint

variable {identity : PgpIdentity}

/-- A signature by another signer, or under the key that was there, is valid as before. -/
theorem signatureIsValid_addOwnKey {sig : TrustSignature}
    (h : sig.signerFingerprint ≠ identity.fingerprint ∨
      (w.keys.lookup identity.fingerprint).map (·.publicKeyHex) = some identity.publicKeyHex) :
    (w.addOwnKey identity).signatureIsValid prim sig = w.signatureIsValid prim sig := by
  have hlookup : (w.addOwnKey identity).keys.lookup sig.signerFingerprint =
      if sig.signerFingerprint = identity.fingerprint then some identity
      else w.keys.lookup sig.signerFingerprint := HashMap.lookup_insert_ite ..
  rw [signatureIsValid, signatureIsValid, hlookup]
  split_ifs with hsigner
  · obtain ⟨key, hkey, hhex⟩ := Option.map_eq_some_iff.mp (h.resolve_left (not_not_intro hsigner))
    rw [hsigner, hkey]
    dsimp only
    rw [hhex]
  · rfl

/-- An own key that replaces no other one leaves all signatures valid or invalid. -/
theorem validSigs_addOwnKey (h : w.OwnOrUnknown identity) :
    (w.addOwnKey identity).validSigs prim = w.validSigs prim := by
  refine List.filter_congr fun sig hsig => signatureIsValid_addOwnKey ?_
  exact h.symm.imp (fun hunknown => hunknown.2 sig hsig) fun hown => hown.2

/-- Other keys start from the level they had. -/
theorem baseLevel_addOwnKey {fp : String} (hfp : fp ≠ identity.fingerprint) :
    (w.addOwnKey identity).baseLevel fp = w.baseLevel fp := by
  have hmem : fp ∈ (w.addOwnKey identity).ownFingerprints ↔ fp ∈ w.ownFingerprints := by
    rw [mem_ownFingerprints_addOwnKey, or_iff_right hfp]
  simp only [baseLevel, hmem]
  rfl

/-- An own key is free no more. -/
theorem free_addOwnKey_iff {fp : String} :
    (w.addOwnKey identity).Free fp ↔ fp ≠ identity.fingerprint ∧ w.Free fp := by
  have hkeys : fp ∈ (w.addOwnKey identity).keys ↔ fp = identity.fingerprint ∨ fp ∈ w.keys :=
    AList.mem_insert _
  have hmanual : (w.addOwnKey identity).manualOverrides = w.manualOverrides := rfl
  rw [Free, Free, hkeys, mem_ownFingerprints_addOwnKey, hmanual]
  tauto

/-- The computed levels lie above those they start from. -/
theorem baseLevel_le_freshTrust : w.baseLevel ≤ w.freshTrust prim :=
  (isLeast_computeTrustMap prim w _).1.1

/-- An own key that is stored has the level it had. -/
theorem baseLevel_addOwnKey_of_own (hown : identity.fingerprint ∈ w.ownFingerprints) :
    (w.addOwnKey identity).baseLevel identity.fingerprint =
      w.freshTrust prim identity.fingerprint := by
  have hmem : identity.fingerprint ∈ (w.addOwnKey identity).ownFingerprints :=
    mem_ownFingerprints_addOwnKey.mpr (.inl rfl)
  rw [freshTrust_of_not_free fun hfree => hfree.2.1 hown, baseLevel, baseLevel, if_pos hmem,
    if_pos hown]
  rfl

/-- Another own key lowers no level to start from. -/
theorem baseLevel_le_addOwnKey (fp : String) :
    w.baseLevel fp ≤ (w.addOwnKey identity).baseLevel fp := by
  by_cases hfp : fp = identity.fingerprint
  · have hmem : fp ∈ (w.addOwnKey identity).ownFingerprints :=
      mem_ownFingerprints_addOwnKey.mpr (.inl hfp)
    have hmanual : (w.addOwnKey identity).manualOverrides = w.manualOverrides := rfl
    rw [baseLevel, baseLevel, if_pos hmem, hmanual]
    cases w.manualOverrides.lookup fp with
    | some level => exact le_rfl
    | none =>
      show ite _ _ _ ≤ TrustLevel.ultimate
      split_ifs <;> decide
  · exact (baseLevel_addOwnKey hfp).ge

/-- Adding a key of our own, known as such or new, leaves the levels of all other keys. -/
theorem freshTrust_addOwnKey (h : w.OwnOrUnknown identity) {fp : String}
    (hfp : fp ≠ identity.fingerprint ∨ identity.fingerprint ∈ w.ownFingerprints) :
    (w.addOwnKey identity).freshTrust prim fp = w.freshTrust prim fp := by
  have hsigs : (w.addOwnKey identity).validSigs prim = w.validSigs prim := validSigs_addOwnKey h
  -- the levels of the graph, with the one of the added key
  let trust := Function.update (w.freshTrust prim) identity.fingerprint
    ((w.addOwnKey identity).baseLevel identity.fingerprint)
  have hself : trust identity.fingerprint =
      (w.addOwnKey identity).baseLevel identity.fingerprint := Function.update_self ..
  have hother {fp : String} (hne : fp ≠ identity.fingerprint) : trust fp = w.freshTrust prim fp :=
    Function.update_of_ne hne ..
  have htrust {fp : String}
      (hfp : fp ≠ identity.fingerprint ∨ identity.fingerprint ∈ w.ownFingerprints) :
      trust fp = w.freshTrust prim fp := by
    by_cases hne : fp = identity.fingerprint
    · rw [hne, hself, baseLevel_addOwnKey_of_own (hfp.resolve_left (not_not_intro hne))]
    · exact hother hne
  have hle : (w.addOwnKey identity).freshTrust prim ≤ trust := by
    refine freshTrust_le (fun fp => ?_) fun fp hfree => ?_
    · by_cases hne : fp = identity.fingerprint
      · rw [hne, hself]
      · rw [hother hne, baseLevel_addOwnKey hne]
        exact baseLevel_le_freshTrust fp
    · obtain ⟨hne, hfree⟩ := free_addOwnKey_iff.mp hfree
      have hsigners : ∀ sig ∈ w.validSigs prim,
          trust sig.signerFingerprint = w.freshTrust prim sig.signerFingerprint :=
        fun sig hsig => htrust <|
          h.symm.imp (fun hnew => hnew.2 sig (List.mem_of_mem_filter hsig)) fun hown => hown.1
      rw [hsigs, newLevel_congr hsigners, hother hne, freshTrust_of_free hfree]
  have hge : w.freshTrust prim ≤ (w.addOwnKey identity).freshTrust prim := by
    refine freshTrust_le (fun fp => ?_) fun fp hfree => ?_
    · exact (baseLevel_le_addOwnKey fp).trans (baseLevel_le_freshTrust fp)
    · have hne : fp ≠ identity.fingerprint := by
        rintro rfl
        exact h.elim (fun hown => hfree.2.1 hown.1) fun hunknown => hunknown.1 hfree.1
      rw [freshTrust_of_free (free_addOwnKey_iff.mpr ⟨hne, hfree⟩), hsigs]
  exact le_antisymm ((hle fp).trans (htrust hfp).le) (hge fp)

end WebOfTrust

/-! ## Process runs -/

/-- The files of a node that hold its keys. -/
structure KeyFiles where
  identity : Option Bytes
  wot : Option Bytes

/-- A process run with the calls that are made on its Web of Trust, and the operations that fail
while it is written at the end, if the process comes to that. -/
structure NodeRun extends ProcessRun where
  /-- The clock when our own key is added. -/
  created : ℕ
  calls : List WotCall
  saveWot : Option (KeyFileOp → Option ℕ)

namespace NodeRun

section Runs

variable (prim : Primitives) (idSerde : IdentitySerde) (wotSerde : WotSerde)

/-- The identity of the process run. -/
def ownIdentity (r : NodeRun) (files : KeyFiles) : Identity :=
  r.identity prim idSerde files.identity

/-- The Web of Trust when the process starts. -/
def loaded (r : NodeRun) (files : KeyFiles) : WebOfTrust :=
  .load prim wotSerde r.created (r.ownIdentity prim idSerde files) files.wot

/-- The Web of Trust after the calls. -/
def web (r : NodeRun) (files : KeyFiles) : WebOfTrust :=
  (r.loaded prim idSerde wotSerde files).run prim r.calls

/-- The text of the Web of Trust after the calls. -/
def text (r : NodeRun) (files : KeyFiles) : Bytes :=
  asBytes (wotSerde.encode (r.web prim idSerde wotSerde files).invalidateCache)

/-- The files after the process run. -/
def next (r : NodeRun) (files : KeyFiles) : KeyFiles where
  identity := r.fileAfter prim idSerde files.identity
  wot :=
    match r.saveWot with
    | none => files.wot
    | some faults => (((r.web prim idSerde wotSerde files).save wotSerde).run faults files.wot).2

/-- The Webs of Trust of process runs on the same files, one after the other. -/
def webs : KeyFiles → List NodeRun → List WebOfTrust
  | _, [] => []
  | files, r :: runs =>
    r.web prim idSerde wotSerde files :: webs (r.next prim idSerde wotSerde files) runs

/-- The files after process runs. -/
def filesAfter (files : KeyFiles) (runs : List NodeRun) : KeyFiles :=
  runs.foldl (fun files r => r.next prim idSerde wotSerde files) files

/-- The identities that `wot.json` keeps after a process run, of those it kept before. -/
def kept (r : NodeRun) (files : KeyFiles) (ids : List Identity) : List Identity :=
  match r.saveWot with
  | none => ids
  | some faults =>
    if faults .openFile ≠ none then ids
    else if Whole faults (r.text prim idSerde wotSerde files) then
      r.ownIdentity prim idSerde files :: ids
    -- the file is cut off
    else []

/-- The identities that are kept after process runs: those of the runs that wrote `wot.json`, since
it was cut off the last time. -/
def keptAfter : KeyFiles → List Identity → List NodeRun → List Identity
  | _, ids, [] => ids
  | files, ids, r :: runs =>
    keptAfter (r.next prim idSerde wotSerde files) (r.kept prim idSerde wotSerde files ids) runs

end Runs

variable {prim : Primitives} {idSerde : IdentitySerde} {wotSerde : WotSerde} {files : KeyFiles}
  {r : NodeRun} {runs : List NodeRun} {ids : List Identity}

/-- What is read after a process run. -/
theorem read_next (hwrites : wotSerde.Writes (r.web prim idSerde wotSerde files).invalidateCache) :
    wotSerde.read (r.next prim idSerde wotSerde files).wot =
      match r.saveWot with
      | none => wotSerde.read files.wot
      | some faults =>
        if faults .openFile ≠ none then wotSerde.read files.wot
        else if Whole faults (r.text prim idSerde wotSerde files) then
          some (r.web prim idSerde wotSerde files).invalidateCache
        else none := by
  rw [next]
  cases r.saveWot with
  | none => rfl
  | some faults =>
    dsimp only
    rw [WebOfTrust.save, run_writePrivateFile, FileSerde.read_writtenFile hwrites]
    rfl

/-- What is read after a process run that has written the file as a whole. -/
theorem read_next_of_whole {faults : KeyFileOp → Option ℕ} (hsave : r.saveWot = some faults)
    (hopen : faults .openFile = none) (hwhole : Whole faults (r.text prim idSerde wotSerde files))
    (hwrites : wotSerde.Writes (r.web prim idSerde wotSerde files).invalidateCache) :
    wotSerde.read (r.next prim idSerde wotSerde files).wot =
      some (r.web prim idSerde wotSerde files).invalidateCache := by
  rw [read_next hwrites, hsave]
  dsimp only
  rw [if_neg (not_not_intro hopen), if_pos hwhole]

/-- Our own fingerprints in `wot.json` are those of the identities. -/
def Remembers (prim : Primitives) (wotSerde : WotSerde) (files : KeyFiles) (ids : List Identity) :
    Prop :=
  ∀ fp, fp ∈ WebOfTrust.savedFingerprints wotSerde files.wot ↔
    ∃ id ∈ ids, fp = fingerprintOfPublicHex prim id.publicHex

/-- While a process runs, our own fingerprints are those of its identity and of the identities that
`wot.json` keeps. -/
theorem Remembers.web (h : Remembers prim wotSerde files ids)
    (hcalls : ∀ c ∈ r.calls, ∀ identity, c ≠ .addOwnKey identity) (fp : String) :
    fp ∈ (r.web prim idSerde wotSerde files).ownFingerprints ↔
      ∃ id ∈ r.ownIdentity prim idSerde files :: ids,
        fp = fingerprintOfPublicHex prim id.publicHex := by
  rw [NodeRun.web, WebOfTrust.ownFingerprints_run hcalls, loaded,
    WebOfTrust.mem_ownFingerprints_load, h fp]
  simp only [List.mem_cons, exists_eq_or_imp]

/-- A run of the process keeps in its files what it knew. -/
theorem Remembers.next (h : Remembers prim wotSerde files ids)
    (hcalls : ∀ c ∈ r.calls, ∀ identity, c ≠ .addOwnKey identity)
    (hwrites : wotSerde.Writes (r.web prim idSerde wotSerde files).invalidateCache) :
    Remembers prim wotSerde (r.next prim idSerde wotSerde files)
      (r.kept prim idSerde wotSerde files ids) := by
  intro fp
  rw [WebOfTrust.savedFingerprints, read_next hwrites, kept]
  cases r.saveWot with
  | none => exact h fp
  | some faults =>
    dsimp only
    split_ifs with hopen hwhole
    · exact h fp
    · exact h.web hcalls fp
    · simp

/-- Several runs of the process, one after the other. -/
theorem Remembers.filesAfter (h : Remembers prim wotSerde files ids)
    (hcalls : ∀ r ∈ runs, ∀ c ∈ r.calls, ∀ identity, c ≠ .addOwnKey identity)
    (hwrites : ∀ w ∈ webs prim idSerde wotSerde files runs, wotSerde.Writes w.invalidateCache) :
    Remembers prim wotSerde (filesAfter prim idSerde wotSerde files runs)
      (keptAfter prim idSerde wotSerde files ids runs) := by
  induction runs generalizing files ids with
  | nil => exact h
  | cons r runs ih =>
    obtain ⟨hcall, hcalls⟩ := List.forall_mem_cons.mp hcalls
    rw [webs, List.forall_mem_cons] at hwrites
    exact ih (h.next hcall hwrites.1) hcalls hwrites.2

/-- The cache of a process agrees with its signatures. -/
theorem coherent_web : (r.web prim idSerde wotSerde files).Coherent prim := by
  refine WebOfTrust.Coherent.run ?_ r.calls
  rw [loaded, WebOfTrust.load]
  split <;> exact WebOfTrust.coherent_invalidateCache

/-- For every sequence of process runs that starts without a `wot.json`, whatever is done with the
Web of Trust and whatever operations of `write_private_file` fail: while the next process runs, the
keys that are trusted ultimately, apart from those whose level was set by hand, are the key of its
identity and those of the identities of the earlier process runs that wrote `wot.json`, unless it
was cut off since. A key that the node has lost stays among them. -/
theorem ultimate_iff (hfile : wotSerde.read files.wot = none)
    (hcalls : ∀ r' ∈ r :: runs, ∀ c ∈ r'.calls, ∀ identity, c ≠ .addOwnKey identity)
    (hwrites : ∀ w ∈ webs prim idSerde wotSerde files runs, wotSerde.Writes w.invalidateCache)
    (orders : ℕ → IterOrder String) (fp : String) :
    let now := filesAfter prim idSerde wotSerde files runs
    let w := r.web prim idSerde wotSerde now
    fp ∉ w.manualOverrides →
      ((w.calculateTrust prim orders fp).1 = .ultimate ↔
        ∃ id ∈ r.ownIdentity prim idSerde now :: keptAfter prim idSerde wotSerde files [] runs,
          fp = fingerprintOfPublicHex prim id.publicHex) := by
  intro now w hmanual
  obtain ⟨hcall, hcalls⟩ := List.forall_mem_cons.mp hcalls
  have hnone : Remembers prim wotSerde files [] := by
    intro fp
    rw [WebOfTrust.savedFingerprints, hfile]
    simp
  rw [(WebOfTrust.calculateTrust_spec coherent_web orders fp).1,
    WebOfTrust.freshTrust_eq_ultimate_iff hmanual]
  exact (hnone.filesAfter hcalls hwrites).web hcall fp

/-- The text of a stored key. -/
def keyText (p : String × PgpIdentity) : String :=
  "\"" ++ p.1 ++ "\": \x7b\"user_id\": \"" ++ p.2.userId ++ "\", \"public_key_hex\": \"" ++
    p.2.publicKeyHex ++ "\", \"fingerprint\": \"" ++ p.2.fingerprint ++ "\", \"created\": " ++
    toString p.2.created ++ "\x7d"

/-- The text of a signature. -/
def signatureText (sig : TrustSignature) : String :=
  "\x7b\"signer_fingerprint\": \"" ++ sig.signerFingerprint ++ "\", \"subject_fingerprint\": \"" ++
    sig.subjectFingerprint ++ "\", \"trust_level\": " ++ toString sig.trustLevel ++
    ", \"timestamp\": " ++ toString sig.timestamp ++ ", \"signature_data\": [" ++
    ", ".intercalate (sig.signatureData.map toString) ++ "]\x7d"

/-- The text of a Web of Trust without overrides, on one line. -/
def wotText (w : WebOfTrust) : String :=
  "\x7b\"keys\": \x7b" ++ ", ".intercalate (w.keys.pairs.map keyText) ++
    "\x7d, \"signatures\": [" ++ ", ".intercalate (w.signatures.map signatureText) ++
    "], \"own_fingerprints\": [" ++
    ", ".intercalate (w.ownFingerprints.map fun fp => "\"" ++ fp ++ "\"") ++
    "], \"trusted_introducers\": [], \"manual_overrides\": \x7b\x7d\x7d"

section Sample

open WebOfTrust (headPrimitives alicePgp bobPgp)

/-- The identity that is lost: the key of `alice`. -/
def lostIdentity : Identity := .generate headPrimitives "" (.replicate 32 0xaa) 10

/-- The key of `bob` is signed. At the shutdown the disk is full while the identity is written, and
no longer when the Web of Trust is. -/
def lostRun : NodeRun where
  keyBytes := .replicate 32 0xaa
  now := 10
  start _ := none
  shutdown := some (writeStops 20)
  created := 10
  calls := [.addKey bobPgp, .addSignature (.create headPrimitives (.replicate 32 0xaa)
    alicePgp.fingerprint bobPgp.fingerprint 2 10)]
  saveWot := some fun _ => none

/-- The next process run. -/
def nextRun : NodeRun where
  keyBytes := .replicate 32 0x11
  now := 20
  start _ := none
  shutdown := none
  created := 20
  calls := []
  saveWot := none

/-- The two identities are read and written. -/
def sampleIdentities : IdentitySerde :=
  .ofList identityText [lostIdentity, .generate headPrimitives "" (.replicate 32 0x11) 20]

/-- The Web of Trust of the first process run is read and written. -/
def sampleWot : WotSerde :=
  .ofList wotText [((WebOfTrust.new.addOwnKey (.fromIdentity headPrimitives 10 lostIdentity)).run
    headPrimitives lostRun.calls).invalidateCache]

/-- The web of the sample run is written. -/
theorem writes_sampleWot : sampleWot.Writes
    (lostRun.web headPrimitives sampleIdentities sampleWot ⟨none, none⟩).invalidateCache :=
  FileSerde.writes_ofList (List.mem_singleton_self _)
    (List.forall_mem_singleton.mpr ⟨rfl, fun _ => rfl⟩)

/-- The second process run has another identity, and trusts the lost key ultimately. -/
theorem lost_key_trusted :
    let files := filesAfter headPrimitives sampleIdentities sampleWot ⟨none, none⟩ [lostRun]
    nextRun.ownIdentity headPrimitives sampleIdentities files ≠ lostIdentity ∧
      ((nextRun.web headPrimitives sampleIdentities sampleWot files).calculateTrust headPrimitives
        (fun _ => .stored) alicePgp.fingerprint).1 = .ultimate := by
  intro files
  refine ⟨by decide +kernel, (@ultimate_iff headPrimitives sampleIdentities sampleWot ⟨none, none⟩
    nextRun [lostRun] rfl ?_ ?_ (fun _ => .stored) alicePgp.fingerprint ?_).mpr ?_⟩
  · simp [nextRun, lostRun]
  · exact List.forall_mem_singleton.mpr writes_sampleWot
  · have hread := read_next_of_whole rfl rfl (fun k hk => by cases hk) writes_sampleWot
    rw [filesAfter, List.foldl_cons, List.foldl_nil, web, loaded, WebOfTrust.load, hread]
    decide +kernel
  · exact ⟨lostIdentity, by decide +kernel, rfl⟩

end Sample

/-- After a process run that has written `wot.json` as a whole, the next one finds every key at the
level it had, in whatever orders the levels are computed. The key of its own identity, if that is a
new one, is the only exception. Nothing else may be stored under the fingerprint of that key, as it
would be replaced. -/
theorem levels_restart {faults : KeyFileOp → Option ℕ} (hsave : r.saveWot = some faults)
    (hopen : faults .openFile = none) (hwhole : Whole faults (r.text prim idSerde wotSerde files))
    (hwrites : wotSerde.Writes (r.web prim idSerde wotSerde files).invalidateCache)
    (r' : NodeRun) (orders orders' : ℕ → IterOrder String) (fp : String) :
    let w := r.web prim idSerde wotSerde files
    let files' := r.next prim idSerde wotSerde files
    let own := PgpIdentity.fromIdentity prim r'.created (r'.ownIdentity prim idSerde files')
    w.OwnOrUnknown own → fp ≠ own.fingerprint ∨ own.fingerprint ∈ w.ownFingerprints →
      ((r'.loaded prim idSerde wotSerde files').calculateTrust prim orders fp).1 =
        (w.calculateTrust prim orders' fp).1 := by
  intro w files' own hown hfp
  have hloaded : r'.loaded prim idSerde wotSerde files' = w.invalidateCache.addOwnKey own := by
    rw [loaded, WebOfTrust.load, read_next_of_whole hsave hopen hwhole hwrites]
  have hcoherent : (w.invalidateCache.addOwnKey own).Coherent prim :=
    WebOfTrust.coherent_invalidateCache
  rw [hloaded, (WebOfTrust.calculateTrust_spec hcoherent orders fp).1,
    (WebOfTrust.calculateTrust_spec coherent_web orders' fp).1]
  exact WebOfTrust.freshTrust_addOwnKey hown hfp

open WebOfTrust (headPrimitives bobPgp) in
/-- The key of `bob` is trusted as before. -/
theorem levels_restart_bob :
    let files := lostRun.next headPrimitives sampleIdentities sampleWot ⟨none, none⟩
    ((nextRun.loaded headPrimitives sampleIdentities sampleWot files).calculateTrust headPrimitives
      (fun _ => .stored) bobPgp.fingerprint).1 = .full := by
  intro files
  refine (@levels_restart headPrimitives sampleIdentities sampleWot ⟨none, none⟩ lostRun _ rfl rfl
    (fun k hk => by cases hk) writes_sampleWot nextRun (fun _ => .stored) (fun _ => .stored)
    bobPgp.fingerprint ?_ ?_).trans ?_
  · exact .inr (by decide +kernel)
  · exact .inl (by decide +kernel)
  · decide +kernel

end NodeRun

end ChronoShift
