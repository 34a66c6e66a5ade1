import ChronoShift.Pgp.PgpIdentity
import ChronoShift.ToMathlib.Chaotic

/-!
# The Web of Trust

The signature graph of `pgp/web_of_trust.rs`: keys by fingerprint, trust signatures between them,
our own keys, manual overrides, and the cached result of the trust computation.

A set of fingerprints is a duplicate-free list. The order in which a pass of the computation
enumerates the keys is a parameter, one for each pass; the base levels are entered under distinct
fingerprints, so the order in which they are visited is left as stored. Keys marked as trusted
introducers are not modelled, since no function reads them.

* `WebOfTrust.computeTrustMap`: the loop over all keys until no level changes;
* `WebOfTrust.calculateTrust`: the query, with its early returns and its cache;
* `WebOfTrust.run`: sequences of calls.
-/

namespace ChronoShift

open ToMathlib

/-- The text a trust signature covers. -/
def signatureMessage (subjectFp : String) (trustLevel : UInt8) (timestamp : ℕ) : Bytes :=
  asBytes "chrono-wot-sign-v1" ++ beBytes 4 (asBytes subjectFp).length ++ asBytes subjectFp ++
    [trustLevel] ++ beBytes 8 timestamp

/-- A trust signature from one key to another. -/
structure TrustSignature where
  signerFingerprint : String
  subjectFingerprint : String
  trustLevel : UInt8
  timestamp : ℕ
  signatureData : Bytes
  deriving DecidableEq

/-- A signature made with `signingKey`. -/
def TrustSignature.create (prim : Primitives) (signingKey : Bytes32) (signerFingerprint
    subjectFingerprint : String) (trustLevel : UInt8) (timestamp : ℕ) : TrustSignature :=
  ⟨signerFingerprint, subjectFingerprint, trustLevel, timestamp,
    prim.sign signingKey (signatureMessage subjectFingerprint trustLevel timestamp)⟩

/-- The trust level that a signature grants. -/
def TrustSignature.level (sig : TrustSignature) : TrustLevel :=
  TrustLevel.fromI32 sig.trustLevel.toNat

/-- The level of a fingerprint; one without an entry is unknown. -/
def levelOf (trust : HashMap String TrustLevel) (fp : String) : TrustLevel :=
  (trust.lookup fp).getD .unknown

/-- Who signed whose keys, and what follows from it. -/
structure WebOfTrust where
  keys : HashMap String PgpIdentity
  signatures : List TrustSignature
  /-- Our own fingerprints. -/
  ownFingerprints : List String
  /-- Levels that were set by hand. -/
  manualOverrides : HashMap String TrustLevel
  trustCache : HashMap String TrustLevel
  cacheValid : Bool

/-- Count one signature, if it is on the key: the first counter is for contributions of at least
`full`, the second for the other ones of at least `marginal`. -/
def countContribution (trust : String → TrustLevel) (fp : String) : ℕ × ℕ → TrustSignature → ℕ × ℕ
  | (full, marginal), sig =>
    if sig.subjectFingerprint ≠ fp then (full, marginal)
    else
      let contribution := min (trust sig.signerFingerprint) sig.level
      if contribution ≥ .full then (full + 1, marginal)
      else if contribution ≥ .marginal then (full, marginal + 1)
      else (full, marginal)

/-- The level that the signatures on a key give it. -/
def newLevel (validSigs : List TrustSignature) (trust : String → TrustLevel) (fp : String) :
    TrustLevel :=
  let (full, marginal) := validSigs.foldl (countContribution trust fp) (0, 0)
  if full ≥ 1 ∨ marginal ≥ 2 then .full
  else if marginal ≥ 1 then .marginal
  else .unknown

namespace WebOfTrust

/-- The empty Web of Trust. -/
def new : WebOfTrust := ⟨∅, [], [], ∅, ∅, false⟩

/-- Empty the cache. -/
def invalidateCache (w : WebOfTrust) : WebOfTrust := { w with trustCache := ∅, cacheValid := false }

/-- Add a key of our own. -/
def addOwnKey (w : WebOfTrust) (identity : PgpIdentity) : WebOfTrust :=
  { w with
    ownFingerprints := w.ownFingerprints.insert identity.fingerprint
    keys := w.keys.insert identity.fingerprint identity }.invalidateCache

/-- Add a key. The entry is made under the fingerprint that the identity carries. -/
def addKey (w : WebOfTrust) (identity : PgpIdentity) : WebOfTrust :=
  { w with keys := w.keys.insert identity.fingerprint identity }.invalidateCache

/-- The signature verifies under the signer's stored key. -/
def signatureIsValid (prim : Primitives) (w : WebOfTrust) (sig : TrustSignature) : Bool :=
  match w.keys.lookup sig.signerFingerprint with
  | none => false
  | some signer =>
    match ((hexDecode signer.publicKeyHex).bind toBytes32).filter prim.isVerifyingKey with
    | none => false
    | some vk =>
      prim.verify vk (signatureMessage sig.subjectFingerprint sig.trustLevel sig.timestamp)
        sig.signatureData

/-- Record a signature. Unknown keys, a second signature of the same signer on the same subject and
signatures that do not verify are refused. -/
def addSignature (prim : Primitives) (w : WebOfTrust) (sig : TrustSignature) : Bool × WebOfTrust :=
  if sig.signerFingerprint ∉ w.keys ∨ sig.subjectFingerprint ∉ w.keys then (false, w)
  else if w.signatures.any fun s => s.signerFingerprint = sig.signerFingerprint &&
      s.subjectFingerprint = sig.subjectFingerprint then (false, w)
  else if w.signatureIsValid prim sig then
    (true, { w with signatures := w.signatures ++ [sig] }.invalidateCache)
  else (false, w)

/-- Remove all signatures of a signer on a subject. -/
def removeSignature (w : WebOfTrust) (signerFp subjectFp : String) : WebOfTrust :=
  { w with signatures := w.signatures.filter fun s =>
      !(s.signerFingerprint = signerFp && s.subjectFingerprint = subjectFp) }.invalidateCache

/-- Override the level of a fingerprint. -/
def setManualTrust (w : WebOfTrust) (fp : String) (level : TrustLevel) : WebOfTrust :=
  { w with manualOverrides := w.manualOverrides.insert fp level }.invalidateCache

/-- The levels before any signature is counted. An override replaces the level of an own key. -/
def baseTrust (w : WebOfTrust) : HashMap String TrustLevel :=
  let own := w.ownFingerprints.foldl (fun trust fp => trust.insert fp TrustLevel.ultimate) ∅
  w.manualOverrides.pairs.foldl (fun trust p => trust.insert p.1 p.2) own

/-- The signatures that verify. -/
def validSigs (prim : Primitives) (w : WebOfTrust) : List TrustSignature :=
  w.signatures.filter (w.signatureIsValid prim)

/-- One step of a pass: the level of one key, with the levels computed so far. -/
def trustStep (w : WebOfTrust) (validSigs : List TrustSignature) :
    HashMap String TrustLevel × Bool → String → HashMap String TrustLevel × Bool
  | (trust, changed), fp =>
    if fp ∈ w.ownFingerprints ∨ fp ∈ w.manualOverrides then (trust, changed)
    else if newLevel validSigs (levelOf trust) fp ≠ levelOf trust fp then
      (trust.insert fp (newLevel validSigs (levelOf trust) fp), true)
    else (trust, changed)

/-- One pass over all keys, in the given order, and whether a level has changed. -/
def trustPass (prim : Primitives) (w : WebOfTrust) (order : IterOrder String)
    (trust : HashMap String TrustLevel) : HashMap String TrustLevel × Bool :=
  (order.visit w.keys.keys).foldl (w.trustStep (w.validSigs prim)) (trust, false)

/-- The loop of `compute_trust_map`, for at most `fuel` passes. -/
def trustLoop (prim : Primitives) (w : WebOfTrust) (orders : ℕ → IterOrder String) (fuel : ℕ) :
    Option (HashMap String TrustLevel) :=
  loopUntil (fun i => w.trustPass prim (orders i)) fuel 0 w.baseTrust

/-- `compute_trust_map`. The number of passes is enough for the loop to end
(`trustLoop_eq_some`), so the empty table is never returned in its place. -/
def computeTrustMap (prim : Primitives) (w : WebOfTrust) (orders : ℕ → IterOrder String) :
    HashMap String TrustLevel :=
  (w.trustLoop prim orders (2 * w.keys.keys.length + 1)).getD ∅

/-- The level of a fingerprint. Overrides and own keys are answered at once, everything else from
the cache, which is filled first if need be. -/
def calculateTrust (prim : Primitives) (w : WebOfTrust) (orders : ℕ → IterOrder String)
    (fp : String) : TrustLevel × WebOfTrust :=
  match w.manualOverrides.lookup fp with
  | some level => (level, w)
  | none =>
    if fp ∈ w.ownFingerprints then (.ultimate, w)
    else
      let w := if w.cacheValid then w else
        { w with trustCache := w.computeTrustMap prim orders, cacheValid := true }
      (levelOf w.trustCache fp, w)

/-- One step of `keys_at_level`: the key is listed if its level is high enough. -/
def keysAtLevelStep (prim : Primitives) (orders : ℕ → IterOrder String) (min : TrustLevel) :
    List PgpIdentity × WebOfTrust → String → List PgpIdentity × WebOfTrust
  | (result, w), fp =>
    let (trust, w) := w.calculateTrust prim orders fp
    if trust ≥ min then
      match w.keys.lookup fp with
      | some key => (result ++ [key], w)
      | none => (result, w)
    else (result, w)

/-- The keys at or above a level. -/
def keysAtLevel (prim : Primitives) (w : WebOfTrust) (orders : ℕ → IterOrder String)
    (order : IterOrder String) (min : TrustLevel) : List PgpIdentity × WebOfTrust :=
  (order.visit w.keys.keys).foldl (keysAtLevelStep prim orders min) ([], w)

end WebOfTrust

/-! ## Runs -/

/-- A call on a Web of Trust, with the iteration orders it meets. -/
inductive WotCall where
  | addOwnKey (identity : PgpIdentity)
  | addKey (identity : PgpIdentity)
  | addSignature (sig : TrustSignature)
  | removeSignature (signerFp subjectFp : String)
  | setManualTrust (fp : String) (level : TrustLevel)
  | keysAtLevel (orders : ℕ → IterOrder String) (order : IterOrder String) (min : TrustLevel)
  | calculateTrust (orders : ℕ → IterOrder String) (fp : String)

namespace WebOfTrust

/-- The state after a call. -/
def call (prim : Primitives) (w : WebOfTrust) : WotCall → WebOfTrust
  | .addOwnKey identity => w.addOwnKey identity
  | .addKey identity => w.addKey identity
  | .addSignature sig => (w.addSignature prim sig).2
  | .removeSignature signerFp subjectFp => w.removeSignature signerFp subjectFp
  | .setManualTrust fp level => w.setManualTrust fp level
  | .keysAtLevel orders order min => (w.keysAtLevel prim orders order min).2
  | .calculateTrust orders fp => (w.calculateTrust prim orders fp).2

/-- The state after a sequence of calls. -/
def run (prim : Primitives) (w : WebOfTrust) (calls : List WotCall) : WebOfTrust :=
  calls.foldl (call prim) w

end WebOfTrust

end ChronoShift
