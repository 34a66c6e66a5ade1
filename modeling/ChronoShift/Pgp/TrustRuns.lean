import ChronoShift.Pgp.TrustMap

/-!
# Runs of a Web of Trust

Every call that changes the graph empties the cache, so a valid cache holds the levels of the
current graph (`WebOfTrust.Coherent`), and a query returns what a computation without a cache would
return. The early returns of a query agree with the computed table, since an override and an own
key keep their base levels in it.

Keys are entered under the fingerprint they carry, which is the fingerprint of the key only if the
identity was built from its key or was imported from a truthful text.

* `WebOfTrust.calculateTrust_run_eq`: queries after any calls;
* `WebOfTrust.trust_least_fixpoint`: the loop ends, in the least solution of the rule, whatever the
  orders of enumeration and of queries;
* `WebOfTrust.fingerprints_bound_iff`: when stored keys keep the fingerprint of their key.
-/

namespace ChronoShift

open ToMathlib

namespace WebOfTrust

variable {prim : Primitives} {w : WebOfTrust}

/-! ## The cache -/

/-- The levels of the current graph, computed without the cache. -/
def freshTrust (prim : Primitives) (w : WebOfTrust) : String → TrustLevel :=
  levelOf (w.computeTrustMap prim fun _ => .stored)

/-- The computed levels do not depend on the orders of enumeration. -/
theorem levelOf_computeTrustMap (prim : Primitives) (w : WebOfTrust)
    (orders : ℕ → IterOrder String) :
    levelOf (w.computeTrustMap prim orders) = w.freshTrust prim :=
  (isLeast_computeTrustMap prim w orders).unique (isLeast_computeTrustMap prim w _)

theorem freshTrust_of_free {fp : String} (hfree : w.Free fp) :
    w.freshTrust prim fp = newLevel (w.validSigs prim) (w.freshTrust prim) fp :=
  (computeTrustMap_spec prim w _).2.2 fp hfree

theorem freshTrust_of_not_free {fp : String} (hfree : ¬ w.Free fp) :
    w.freshTrust prim fp = w.baseLevel fp :=
  (computeTrustMap_spec prim w _).2.1.frame fp hfree

/-- The levels are below everything above the base levels that the rule does not raise. -/
theorem freshTrust_le {trust : String → TrustLevel} (hbase : w.baseLevel ≤ trust)
    (htrust : ∀ fp, w.Free fp → newLevel (w.validSigs prim) trust fp ≤ trust fp) :
    w.freshTrust prim ≤ trust :=
  (computeTrustMap_spec prim w _).2.1.approximates.le trust hbase htrust

/-- A graph with the same keys, overrides and own keys and with more signatures that verify has no
lower levels. -/
theorem freshTrust_le_of_sublist {w' : WebOfTrust} (hkeys : w.keys = w'.keys)
    (hown : w.ownFingerprints = w'.ownFingerprints)
    (hmanual : w.manualOverrides = w'.manualOverrides)
    (hsigs : (w.validSigs prim).Sublist (w'.validSigs prim)) :
    w.freshTrust prim ≤ w'.freshTrust prim := by
  have hbase : w.baseLevel = w'.baseLevel := by
    funext fp
    rw [baseLevel, baseLevel, hown, hmanual]
  refine freshTrust_le ?_ fun fp hfree => ?_
  · rw [hbase]
    exact (isLeast_computeTrustMap prim w' _).1.1
  -- the levels of the larger graph satisfy its rule, which is not below the rule of the smaller one
  · have hfree' : w'.Free fp := ⟨hkeys ▸ hfree.1, hown ▸ hfree.2.1, hmanual ▸ hfree.2.2⟩
    rw [freshTrust_of_free hfree']
    exact newLevel_le_of_sublist hsigs

theorem freshTrust_of_override {fp : String} {level : TrustLevel}
    (h : w.manualOverrides.lookup fp = some level) : w.freshTrust prim fp = level := by
  have hmem : fp ∈ w.manualOverrides := HashMap.mem_iff_exists_lookup.mpr ⟨level, h⟩
  rw [freshTrust_of_not_free fun hfree => hfree.2.2 hmem, baseLevel, h]
  rfl

theorem freshTrust_of_own {fp : String} (hown : fp ∈ w.ownFingerprints)
    (hmanual : w.manualOverrides.lookup fp = none) : w.freshTrust prim fp = .ultimate := by
  rw [freshTrust_of_not_free fun hfree => hfree.2.1 hown, baseLevel, hmanual, if_pos hown]
  rfl

/-- A valid cache holds the levels of the current graph. -/
def Coherent (prim : Primitives) (w : WebOfTrust) : Prop :=
  w.cacheValid = true → levelOf w.trustCache = w.freshTrust prim

theorem coherent_invalidateCache : w.invalidateCache.Coherent prim := fun h => nomatch h

/-- A query changes nothing but the cache. -/
theorem invalidateCache_calculateTrust (prim : Primitives) (w : WebOfTrust)
    (orders : ℕ → IterOrder String) (fp : String) :
    (w.calculateTrust prim orders fp).2.invalidateCache = w.invalidateCache := by
  unfold calculateTrust
  split
  · rfl
  · split_ifs <;> rfl

/-- A query returns the level of the current graph, and keeps the cache coherent. -/
theorem calculateTrust_spec (h : w.Coherent prim) (orders : ℕ → IterOrder String) (fp : String) :
    (w.calculateTrust prim orders fp).1 = w.freshTrust prim fp ∧
      (w.calculateTrust prim orders fp).2.Coherent prim := by
  unfold calculateTrust
  split
  next level hlevel => exact ⟨(freshTrust_of_override hlevel).symm, h⟩
  next hnone =>
    split_ifs with hown hvalid
    · exact ⟨(freshTrust_of_own hown hnone).symm, h⟩
    · exact ⟨congrFun (h hvalid) fp, h⟩
    -- the cache is filled with the levels of the graph as it is now
    · have hfill := levelOf_computeTrustMap prim w orders
      exact ⟨congrFun hfill fp, fun _ => hfill⟩

theorem keysAtLevelStep_snd (orders : ℕ → IterOrder String) (min : TrustLevel)
    (result : List PgpIdentity) (w : WebOfTrust) (fp : String) :
    (keysAtLevelStep prim orders min (result, w) fp).2 = (w.calculateTrust prim orders fp).2 := by
  rw [keysAtLevelStep]
  dsimp only
  split_ifs
  · split <;> rfl
  · rfl

/-- Listing keys queries them one after the other, so it keeps what a query keeps. -/
theorem keysAtLevel_induct {I : WebOfTrust → Prop} (hw : I w) (orders : ℕ → IterOrder String)
    (order : IterOrder String) (min : TrustLevel)
    (hquery : ∀ w fp, I w → I (w.calculateTrust prim orders fp).2) :
    I (w.keysAtLevel prim orders order min).2 := by
  suffices hfold : ∀ (fps : List String) (p : List PgpIdentity × WebOfTrust), I p.2 →
      I (fps.foldl (keysAtLevelStep prim orders min) p).2 from hfold _ ([], w) hw
  intro fps
  induction fps with
  | nil => exact fun p hp => hp
  | cons fp fps ih =>
    rintro ⟨result, w⟩ hp
    refine ih _ ?_
    rw [keysAtLevelStep_snd]
    exact hquery w fp hp

/-- Every call keeps the cache coherent. -/
theorem Coherent.call (h : w.Coherent prim) (c : WotCall) : (w.call prim c).Coherent prim := by
  cases c with
  | addSignature sig =>
    rw [WebOfTrust.call, addSignature]
    -- a refused signature changes nothing
    split_ifs
    · exact h
    · exact h
    · exact coherent_invalidateCache
    · exact h
  | keysAtLevel orders order min =>
    exact keysAtLevel_induct h orders order min fun w fp hw => (calculateTrust_spec hw orders fp).2
  | calculateTrust orders fp => exact (calculateTrust_spec h orders fp).2
  | _ => exact coherent_invalidateCache

theorem Coherent.run (h : w.Coherent prim) (calls : List WotCall) :
    (w.run prim calls).Coherent prim := by
  induction calls generalizing w with
  | nil => exact h
  | cons c calls ih => exact ih (h.call c)

/-- The value has been built by the code: from any graph without a cache, as `new` and a saved file
give it, by any calls. -/
def Built (prim : Primitives) (w : WebOfTrust) : Prop :=
  ∃ (w₀ : WebOfTrust) (calls : List WotCall), w = w₀.invalidateCache.run prim calls

theorem Built.coherent (h : w.Built prim) : w.Coherent prim := by
  obtain ⟨w₀, calls, rfl⟩ := h
  exact coherent_invalidateCache.run calls

/-- Queries leave the graph as it is. -/
theorem invalidateCache_run_queries (w : WebOfTrust)
    (queries : List ((ℕ → IterOrder String) × String)) :
    (w.run prim (queries.map fun q => .calculateTrust q.1 q.2)).invalidateCache =
      w.invalidateCache := by
  induction queries generalizing w with
  | nil => rfl
  | cons q queries ih => exact (ih _).trans (invalidateCache_calculateTrust prim w q.1 q.2)

/-- The levels are those of the graph, without the cache. -/
theorem freshTrust_congr {w' : WebOfTrust} (h : w.invalidateCache = w'.invalidateCache) :
    w.freshTrust prim = w'.freshTrust prim := by
  show w.invalidateCache.freshTrust prim = w'.invalidateCache.freshTrust prim
  rw [h]

/-- After any sequence of calls, with queries among them, a query returns the level that a
computation without a cache returns for the current graph, in whatever order it enumerates the
keys; and so does a query on a value that is built again from the current graph. -/
theorem calculateTrust_run_eq (prim : Primitives) (w : WebOfTrust) (calls : List WotCall)
    (orders orders' : ℕ → IterOrder String) (fp : String) :
    ((w.invalidateCache.run prim calls).calculateTrust prim orders fp).1 =
        levelOf ((w.invalidateCache.run prim calls).computeTrustMap prim orders') fp ∧
      ((w.invalidateCache.run prim calls).calculateTrust prim orders fp).1 =
        ((w.invalidateCache.run prim calls).invalidateCache.calculateTrust prim orders' fp).1 := by
  have hcoherent : (w.invalidateCache.run prim calls).Coherent prim :=
    coherent_invalidateCache.run calls
  rw [(calculateTrust_spec hcoherent orders fp).1, levelOf_computeTrustMap,
    (calculateTrust_spec coherent_invalidateCache orders' fp).1]
  exact ⟨rfl, rfl⟩

/-- The computation of trust, for every graph. The loop ends whatever orders the passes enumerate
the keys in; its result is the least assignment above the base levels that satisfies the rule; so
it does not depend on these orders, and the answer to a query does not depend on the queries before
it. -/
theorem trust_least_fixpoint (prim : Primitives) (w : WebOfTrust)
    (orders : ℕ → IterOrder String) :
    (∀ fuel, 2 * w.keys.keys.length < fuel →
        w.trustLoop prim orders fuel = some (w.computeTrustMap prim orders)) ∧
      IsLeast { trust : String → TrustLevel | w.baseLevel ≤ trust ∧
          ∀ fp, w.Free fp → trust fp = updateRule (w.validSigs prim) trust fp }
        (levelOf (w.computeTrustMap prim orders)) ∧
      (∀ orders', levelOf (w.computeTrustMap prim orders') =
        levelOf (w.computeTrustMap prim orders)) ∧
      ∀ (queries : List ((ℕ → IterOrder String) × String)) (orders' : ℕ → IterOrder String)
          (fp : String),
        ((w.invalidateCache.run prim (queries.map fun q => .calculateTrust q.1 q.2)).calculateTrust
          prim orders' fp).1 = levelOf (w.computeTrustMap prim orders) fp := by
  refine ⟨(computeTrustMap_spec prim w orders).1, isLeast_computeTrustMap prim w orders,
    fun orders' => ?_, fun queries orders' fp => ?_⟩
  · rw [levelOf_computeTrustMap, levelOf_computeTrustMap]
  · have hcoherent : w.invalidateCache.Coherent prim := coherent_invalidateCache
    rw [(calculateTrust_spec (hcoherent.run _) orders' fp).1, levelOf_computeTrustMap,
      freshTrust_congr (invalidateCache_run_queries w.invalidateCache queries)]
    rfl

end WebOfTrust

/-! ## Fingerprints of stored keys -/

/-- The identity that a call adds. -/
def WotCall.added : WotCall → Option PgpIdentity
  | .addOwnKey identity => some identity
  | .addKey identity => some identity
  | _ => none

/-- The identities that a sequence of calls adds. -/
def addedKeys (calls : List WotCall) : List PgpIdentity := calls.filterMap WotCall.added

/-- The ways to come by an identity: from a uid and a key, from an identity of our own, or by
importing a text. -/
inductive PgpIdentity.Obtained (prim : Primitives) (fromStr : String → Except String PgpIdentity) :
    PgpIdentity → Prop
  | fromParts (now : ℕ) (userId publicKeyHex : String) :
      Obtained prim fromStr (fromParts prim now userId publicKeyHex)
  | fromIdentity (now : ℕ) (id : Identity) : Obtained prim fromStr (fromIdentity prim now id)
  | imported {text : String} {identity : PgpIdentity}
      (h : importIdentity fromStr text = .ok identity) : Obtained prim fromStr identity

namespace WebOfTrust

variable {prim : Primitives} {w : WebOfTrust}

/-- The table of keys with an identity added, under the fingerprint it carries. -/
def store (keys : HashMap String PgpIdentity) (identity : PgpIdentity) :
    HashMap String PgpIdentity :=
  keys.insert identity.fingerprint identity

theorem keys_calculateTrust (w : WebOfTrust) (orders : ℕ → IterOrder String) (fp : String) :
    (w.calculateTrust prim orders fp).2.keys = w.keys := by
  have hkeys := congrArg keys (invalidateCache_calculateTrust prim w orders fp)
  exact hkeys

/-- A call stores the identity it adds, and leaves the other keys as they are. -/
theorem keys_call (w : WebOfTrust) (c : WotCall) :
    (w.call prim c).keys = c.added.toList.foldl store w.keys := by
  cases c with
  | addOwnKey identity => rfl
  | addKey identity => rfl
  | addSignature sig =>
    rw [WebOfTrust.call, addSignature]
    split_ifs <;> rfl
  | removeSignature signerFp subjectFp => rfl
  | setManualTrust fp level => rfl
  | keysAtLevel orders order min =>
    refine keysAtLevel_induct (I := fun w' => w'.keys = w.keys) rfl orders order min ?_
    exact fun w' fp hw' => (keys_calculateTrust w' orders fp).trans hw'
  | calculateTrust orders fp => exact keys_calculateTrust w orders fp

theorem keys_run (w : WebOfTrust) (calls : List WotCall) :
    (w.run prim calls).keys = (addedKeys calls).foldl store w.keys := by
  induction calls generalizing w with
  | nil => rfl
  | cons c calls ih =>
    rw [run, List.foldl_cons]
    refine (ih _).trans ?_
    rw [keys_call, ← List.foldl_append]
    cases hc : c.added <;> simp [addedKeys, hc]

/-- What is stored was added, and is found under the fingerprint it carries. -/
theorem mem_of_lookup_store {added : List PgpIdentity} {fp : String} {identity : PgpIdentity}
    (h : (added.foldl store ∅).lookup fp = some identity) :
    identity ∈ added ∧ identity.fingerprint = fp := by
  induction added using List.reverseRecOn with
  | nil => simp at h
  | append_singleton added last ih =>
    rw [List.foldl_append, List.foldl_cons, List.foldl_nil, store, HashMap.lookup_insert_ite] at h
    split at h
    next heq =>
      obtain rfl := Option.some.inj h
      exact ⟨by simp, heq.symm⟩
    next =>
      obtain ⟨hmem, hfp⟩ := ih h
      exact ⟨by simp [hmem], hfp⟩

/-- An entry is replaced, but never removed. -/
theorem mem_foldl_store {keys : HashMap String PgpIdentity} {fp : String} (h : fp ∈ keys)
    (added : List PgpIdentity) : fp ∈ added.foldl store keys := by
  induction added generalizing keys with
  | nil => exact h
  | cons identity added ih => exact ih ((AList.mem_insert _).mpr (Or.inr h))

/-- In every state of a run from the empty Web of Trust, every stored key has the fingerprint of
its key, and the key under a fingerprint stays the same. -/
def FingerprintsBound (prim : Primitives) (calls : List WotCall) : Prop :=
  (∀ done, done <+: calls → ∀ fp identity,
      (new.run prim done).keys.lookup fp = some identity →
        identity.fingerprint = fingerprintOfPublicHex prim identity.publicKeyHex) ∧
    ∀ done later, done <+: later → later <+: calls → ∀ fp identity,
      (new.run prim done).keys.lookup fp = some identity →
        ∃ identity', (new.run prim later).keys.lookup fp = some identity' ∧
          identity'.publicKeyHex = identity.publicKeyHex

/-- An added identity is stored after its call. -/
theorem exists_run_of_mem_addedKeys (prim : Primitives) {calls : List WotCall}
    {identity : PgpIdentity} (h : identity ∈ addedKeys calls) : ∃ done, done <+: calls ∧
      (new.run prim done).keys.lookup identity.fingerprint = some identity := by
  obtain ⟨c, hc, hadded⟩ := List.mem_filterMap.mp h
  obtain ⟨front, back, rfl⟩ := List.append_of_mem hc
  refine ⟨front ++ [c], ⟨back, by simp⟩, ?_⟩
  rw [keys_run, addedKeys, List.filterMap_append, List.foldl_append]
  simp [hadded, store]

/-- A stored key has been added, under its fingerprint. -/
theorem mem_addedKeys_of_lookup {calls done : List WotCall} (hdone : done <+: calls) {fp : String}
    {identity : PgpIdentity} (hlookup : (new.run prim done).keys.lookup fp = some identity) :
    identity ∈ addedKeys calls ∧ identity.fingerprint = fp := by
  rw [keys_run] at hlookup
  obtain ⟨hmem, hfp⟩ := mem_of_lookup_store hlookup
  exact ⟨(hdone.filterMap WotCall.added).subset hmem, hfp⟩

/-- A key that was stored under a fingerprint is the one that is stored there later. -/
theorem FingerprintsBound.publicKeyHex_eq {calls done later : List WotCall}
    (h : FingerprintsBound prim calls) (hle : done <+: later) (hlater : later <+: calls)
    {fp : String} {a b : PgpIdentity} (ha : (new.run prim done).keys.lookup fp = some a)
    (hb : (new.run prim later).keys.lookup fp = some b) : b.publicKeyHex = a.publicKeyHex := by
  obtain ⟨identity, hidentity, hkey⟩ := h.2 done later hle hlater fp a ha
  rw [hb] at hidentity
  obtain rfl := Option.some.inj hidentity
  exact hkey

/-- When stored keys keep the fingerprint of their key: every imported identity that is added
carries the fingerprint of its key, and no two keys that are added have hashes which agree on the
16 bytes that a fingerprint shows. -/
theorem fingerprints_bound_iff (prim : Primitives) (fromStr : String → Except String PgpIdentity)
    (calls : List WotCall)
    (hobtained : ∀ identity ∈ addedKeys calls, identity.Obtained prim fromStr) :
    FingerprintsBound prim calls ↔
      (∀ text identity, PgpIdentity.importIdentity fromStr text = .ok identity →
        identity ∈ addedKeys calls →
          identity.fingerprint = fingerprintOfPublicHex prim identity.publicKeyHex) ∧
      ∀ a ∈ addedKeys calls, ∀ b ∈ addedKeys calls,
        (prim.sha256 (asBytes a.publicKeyHex)).toList.take 16 =
          (prim.sha256 (asBytes b.publicKeyHex)).toList.take 16 →
            a.publicKeyHex = b.publicKeyHex := by
  constructor
  · intro hbound
    -- every added identity is stored at some time, so it has the fingerprint of its key
    have hadded : ∀ identity ∈ addedKeys calls,
        identity.fingerprint = fingerprintOfPublicHex prim identity.publicKeyHex := by
      intro identity hmem
      obtain ⟨done, hdone, hlookup⟩ := exists_run_of_mem_addedKeys prim hmem
      exact hbound.1 done hdone _ identity hlookup
    refine ⟨fun text identity _ hmem => hadded identity hmem, fun a ha b hb heq => ?_⟩
    have hfp : a.fingerprint = b.fingerprint := by
      rw [hadded a ha, hadded b hb]
      exact fingerprintOfPublicHex_eq_iff.mpr heq
    obtain ⟨done, hdone, hlookup⟩ := exists_run_of_mem_addedKeys prim ha
    obtain ⟨done', hdone', hlookup'⟩ := exists_run_of_mem_addedKeys prim hb
    rw [hfp] at hlookup
    -- one of the two was stored first, and its key is still there when the other one is stored
    rcases List.prefix_or_prefix_of_prefix hdone hdone' with hle | hle
    · exact (hbound.publicKeyHex_eq hle hdone' hlookup hlookup').symm
    · exact hbound.publicKeyHex_eq hle hdone hlookup' hlookup
  · rintro ⟨himported, hcollision⟩
    have hadded : ∀ identity ∈ addedKeys calls,
        identity.fingerprint = fingerprintOfPublicHex prim identity.publicKeyHex := by
      intro identity hmem
      cases hobtained identity hmem with
      | fromParts now userId publicKeyHex => rfl
      | fromIdentity now id => rfl
      | @imported text _ himport => exact himported text identity himport hmem
    refine ⟨fun done hdone fp identity hlookup =>
      hadded identity (mem_addedKeys_of_lookup hdone hlookup).1,
      fun done later hle hlater fp identity hlookup => ?_⟩
    obtain ⟨rest, rfl⟩ := hle
    have hmem : fp ∈ (new.run prim (done ++ rest)).keys := by
      rw [keys_run, addedKeys, List.filterMap_append, List.foldl_append]
      refine mem_foldl_store ?_ _
      rw [keys_run] at hlookup
      exact HashMap.mem_iff_exists_lookup.mpr ⟨identity, hlookup⟩
    obtain ⟨identity', hlookup'⟩ := HashMap.mem_iff_exists_lookup.mp hmem
    obtain ⟨hmem, hfp⟩ :=
      mem_addedKeys_of_lookup ((List.prefix_append done rest).trans hlater) hlookup
    obtain ⟨hmem', hfp'⟩ := mem_addedKeys_of_lookup hlater hlookup'
    refine ⟨identity', hlookup', hcollision identity' hmem' identity hmem ?_⟩
    rw [← fingerprintOfPublicHex_eq_iff, ← hadded identity' hmem', ← hadded identity hmem, hfp,
      hfp']

/-- Primitives with a hash that repeats the first byte of its input. -/
def headPrimitives : Primitives where
  __ := Primitives.const
  sha256 bytes := .replicate 32 (bytes.headD 0)

/-- The identity of `alice`. -/
def alicePgp : PgpIdentity :=
  .fromParts headPrimitives 0 "alice" (hexEncode (List.replicate 32 0xaa))

/-- What `mallory` claims: another key, with the fingerprint of `alice`. -/
def malloryPgp : PgpIdentity :=
  ⟨"mallory", hexEncode (List.replicate 32 0xbb), alicePgp.fingerprint, 0⟩

/-- The text that `mallory` hands out. -/
def malloryText : String :=
  "\x7b\"user_id\":\"mallory\",\"public_key_hex\":\"" ++ malloryPgp.publicKeyHex ++
    "\",\"fingerprint\":\"" ++ malloryPgp.fingerprint ++ "\",\"created\":0\x7d"

/-- Reads the text of `mallory`. -/
def malloryFromStr (text : String) : Except String PgpIdentity :=
  if text = malloryText then .ok malloryPgp else .error "expected value at line 1 column 1"

/-- The identity of `carol`. -/
def carolPgp : PgpIdentity :=
  .fromParts headPrimitives 0 "carol" (hexEncode (List.replicate 32 0xbb))

/-- The text that `carol` hands out. -/
def carolText : String :=
  "\x7b\"user_id\":\"carol\",\"public_key_hex\":\"" ++ carolPgp.publicKeyHex ++
    "\",\"fingerprint\":\"" ++ carolPgp.fingerprint ++ "\",\"created\":0\x7d"

/-- Reads the text of `carol`. -/
def carolFromStr (text : String) : Except String PgpIdentity :=
  if text = carolText then .ok carolPgp else .error "expected value at line 1 column 1"

/-- A key that is added and one that is imported keep their fingerprints. -/
theorem fingerprints_bound_iff_carol :
    FingerprintsBound headPrimitives [.addKey alicePgp, .addKey carolPgp] := by
  refine (fingerprints_bound_iff headPrimitives carolFromStr [.addKey alicePgp, .addKey carolPgp]
    ?_).mpr ⟨?_, by decide +kernel⟩
  · intro identity hmem
    rcases List.mem_cons.mp hmem with rfl | hmem
    · exact .fromParts 0 "alice" _
    · obtain rfl := List.mem_singleton.mp hmem
      exact @PgpIdentity.Obtained.imported _ _ carolText _ (by decide +kernel)
  · intro text identity _ hmem
    rcases List.mem_cons.mp hmem with rfl | hmem
    · rfl
    · obtain rfl := List.mem_singleton.mp hmem
      rfl

/-- The text of `mallory` replaces the key of `alice`, without any collision of hashes. -/
theorem not_fingerprints_bound :
    ¬ ∀ (prim : Primitives) (fromStr : String → Except String PgpIdentity) (calls : List WotCall),
      (∀ identity ∈ addedKeys calls, identity.Obtained prim fromStr) →
      (∀ a ∈ addedKeys calls, ∀ b ∈ addedKeys calls,
        (prim.sha256 (asBytes a.publicKeyHex)).toList.take 16 =
          (prim.sha256 (asBytes b.publicKeyHex)).toList.take 16 →
            a.publicKeyHex = b.publicKeyHex) →
      FingerprintsBound prim calls := by
  intro hclaim
  have hbound := hclaim headPrimitives malloryFromStr [.addKey alicePgp, .addKey malloryPgp]
    (by
      intro identity hmem
      rcases List.mem_cons.mp hmem with rfl | hmem
      · exact .fromParts 0 "alice" _
      · obtain rfl := List.mem_singleton.mp hmem
        exact @PgpIdentity.Obtained.imported _ _ malloryText _ (by decide +kernel))
    (by decide +kernel)
  have hwrong := hbound.1 _ (List.prefix_refl _) alicePgp.fingerprint malloryPgp
    (by decide +kernel)
  exact absurd hwrong (by decide +kernel)

end WebOfTrust

end ChronoShift
