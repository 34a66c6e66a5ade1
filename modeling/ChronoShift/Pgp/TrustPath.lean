import ChronoShift.Pgp.TrustChains
import ChronoShift.Text
import ChronoShift.ToMathlib.BreadthFirst

/-!
# Trust paths

`trust_path` looks for a chain of signatures from one of our own keys to a fingerprint, in breadth,
and shows the fingerprints on the chain, shortened. It follows every signature that verifies,
whatever level it grants, and the levels of the keys play no part.

The search runs over the list of signatures, which it reads from the front for every key it comes
to. It is the search of `ToMathlib.search` along the keys that a key has signed
(`WebOfTrust.trustPathLoop_eq_search`).

* `WebOfTrust.trustPath_shortest`: the search ends and returns a shortest path if there is one.
-/

namespace ChronoShift

open ToMathlib

/-- The first and the last six bytes of a long fingerprint. `none` is the panic of a slice that cuts
a character. -/
def fingerprintShort (fp : String) : Option String :=
  let bytes := asBytes fp
  if bytes.length ≤ 12 then some fp
  else
    match fromUtf8 (bytes.take 6), fromUtf8 (bytes.drop (bytes.length - 6)) with
    | some front, some back => some (front ++ ".." ++ back)
    | _, _ => none

theorem exists_fingerprintShort_iff {fp : String} :
    (∃ short, fingerprintShort fp = some short) ↔ EndsCuttable 12 6 fp :=
  @exists_shorten_iff fp 12 6 ".." (by decide)

/-- An ASCII text can be cut anywhere. -/
theorem exists_fingerprintShort_of_ascii {fp : String} (h : ∀ c ∈ fp.toList, c.toNat < 128) :
    ∃ short, fingerprintShort fp = some short :=
  exists_fingerprintShort_iff.mpr fun hlong =>
    ⟨charBoundary_of_ascii h (by omega), charBoundary_of_ascii h (by omega)⟩

theorem exists_mapM_eq_some_iff {α β : Type*} {f : α → Option β} {l : List α} :
    (∃ bs, l.mapM f = some bs) ↔ ∀ a ∈ l, ∃ b, f a = some b := by
  induction l with
  | nil => exact iff_of_true ⟨[], rfl⟩ (List.forall_mem_nil _)
  | cons a l ih =>
    rw [List.forall_mem_cons, ← ih, List.mapM_cons]
    cases f a <;> cases l.mapM f <;> simp

namespace WebOfTrust

/-- Follow one signature: if it is made by the current key, leads to a key that was not visited and
verifies, that key is queued with the path to it. -/
def trustPathStep (prim : Primitives) (w : WebOfTrust) (current : String) (path : List String) :
    List (String × List String) × List String → TrustSignature →
      List (String × List String) × List String
  | (queue, visited), sig =>
    if sig.signerFingerprint = current ∧ sig.subjectFingerprint ∉ visited ∧
        w.signatureIsValid prim sig = true then
      (queue ++ [(sig.subjectFingerprint, path ++ [sig.subjectFingerprint])],
        visited.insert sig.subjectFingerprint)
    else (queue, visited)

/-- The loop of `trust_path`, for at most `fuel` keys: the path on which it stops, or `none` once
the queue is empty. -/
def trustPathLoop (prim : Primitives) (w : WebOfTrust) (fp : String) :
    ℕ → List (String × List String) → List String → Option (Option (List String))
  | 0, _, _ => none
  | _ + 1, [], _ => some none
  | fuel + 1, (current, path) :: queue, visited =>
    if current = fp then some (some path)
    else
      let (queue, visited) :=
        w.signatures.foldl (w.trustPathStep prim current path) (queue, visited)
      trustPathLoop prim w fp fuel queue visited

/-- The search of `trust_path`, from our own keys in the order in which they are enumerated. Every
key is queued at most once, so the loop always ends (`trustPath_shortest`). -/
def trustPathSearch (prim : Primitives) (w : WebOfTrust) (order : IterOrder String) (fp : String) :
    Option (List String) :=
  let own := order.visit w.ownFingerprints
  (w.trustPathLoop prim fp (own.length + w.signatures.length + 1) (own.map fun fp => (fp, [fp]))
    own).getD none

/-- The trust path from our keys to a fingerprint, as it is shown. `none` is a panic while a
fingerprint is shortened. -/
def trustPath (prim : Primitives) (w : WebOfTrust) (order : IterOrder String) (fp : String) :
    Option (List String) :=
  if fp ∈ w.ownFingerprints then (fingerprintShort fp).map fun short => ["(you) == " ++ short]
  else
    match w.trustPathSearch prim order fp with
    | some path => path.mapM fingerprintShort
    | none => some ["(no trust path found)"]

variable {prim : Primitives} {w : WebOfTrust} {fp : String}

/-- A stored signature of one key on another one verifies. -/
def Signed (prim : Primitives) (w : WebOfTrust) (signerFp subjectFp : String) : Prop :=
  ∃ sig ∈ w.signatures, sig.signerFingerprint = signerFp ∧ sig.subjectFingerprint = subjectFp ∧
    w.signatureIsValid prim sig = true

/-- The keys that a key has signed, in the order of the list. -/
def signedBy (prim : Primitives) (w : WebOfTrust) (signerFp : String) : List String :=
  (w.signatures.filter fun sig =>
    sig.signerFingerprint = signerFp && w.signatureIsValid prim sig).map (·.subjectFingerprint)

theorem mem_signedBy {signerFp subjectFp : String} :
    subjectFp ∈ w.signedBy prim signerFp ↔ w.Signed prim signerFp subjectFp := by
  simp only [signedBy, Signed, List.mem_map, List.mem_filter, Bool.and_eq_true, decide_eq_true_eq]
  constructor
  · rintro ⟨sig, ⟨hsig, hsigner, hvalid⟩, rfl⟩
    exact ⟨sig, hsig, hsigner, rfl, hvalid⟩
  · rintro ⟨sig, hsig, hsigner, rfl, hvalid⟩
    exact ⟨sig, ⟨hsig, hsigner, hvalid⟩, rfl⟩

/-- Reading the list of signatures queues the keys that the current key has signed. -/
theorem foldl_trustPathStep (current : String) (path : List String) (sigs : List TrustSignature)
    (s : List (String × List String) × List String) :
    sigs.foldl (w.trustPathStep prim current path) s =
      ((sigs.filter fun sig => sig.signerFingerprint = current && w.signatureIsValid prim sig).map
        (·.subjectFingerprint)).foldl (enqueue path) s := by
  induction sigs generalizing s with
  | nil => rfl
  | cons sig sigs ih =>
    obtain ⟨queue, visited⟩ := s
    rw [List.foldl_cons, trustPathStep, ih]
    by_cases hfollow : sig.signerFingerprint = current ∧ w.signatureIsValid prim sig = true
    · rw [List.filter_cons_of_pos (by simpa using hfollow), List.map_cons, List.foldl_cons, enqueue]
      by_cases hvisited : sig.subjectFingerprint ∈ visited <;> simp [hvisited, hfollow]
    · rw [List.filter_cons_of_neg (by simpa using hfollow), if_neg]
      exact fun h => hfollow ⟨h.1, h.2.2⟩

/-- The loop is a breadth-first search along the signed keys. -/
theorem trustPathLoop_eq_search (prim : Primitives) (w : WebOfTrust) (fp : String) (fuel : ℕ)
    (queue : List (String × List String)) (visited : List String) :
    w.trustPathLoop prim fp fuel queue visited =
      search (w.signedBy prim) fp fuel queue visited := by
  induction fuel generalizing queue visited with
  | zero => rfl
  | succ fuel ih =>
    cases queue with
    | nil => rfl
    | cons e queue =>
      obtain ⟨current, path⟩ := e
      rw [trustPathLoop, search, foldl_trustPathStep]
      split_ifs
      · rfl
      · exact ih _ _

/-- Which keys are our own does not depend on the order in which they are enumerated. -/
theorem pathFrom_visit_iff {order : IterOrder String} {path : List String} :
    PathFrom (fun a b => b ∈ w.signedBy prim a) (order.visit w.ownFingerprints) path fp ↔
      PathFrom (w.Signed prim) w.ownFingerprints path fp := by
  have hadj : (fun a b => b ∈ w.signedBy prim a) = w.Signed prim := by
    funext a b
    exact propext mem_signedBy
  rw [hadj]
  exact ⟨fun h => h.mono fun a ha => order.mem_visit.mp ha,
    fun h => h.mono fun a ha => order.mem_visit.mpr ha⟩

/-- The search ends, in a shortest path or without any. -/
theorem trustPathLoop_spec (prim : Primitives) (w : WebOfTrust) (order : IterOrder String)
    (fp : String) {fuel : ℕ} (hfuel : w.ownFingerprints.length + w.signatures.length < fuel) :
    w.trustPathLoop prim fp fuel ((order.visit w.ownFingerprints).map fun fp => (fp, [fp]))
        (order.visit w.ownFingerprints) = some (w.trustPathSearch prim order fp) ∧
      ((∃ path, w.trustPathSearch prim order fp = some path ∧
          ShortestPath (w.Signed prim) w.ownFingerprints path fp) ∨
        w.trustPathSearch prim order fp = none ∧
          ∀ path, ¬ PathFrom (w.Signed prim) w.ownFingerprints path fp) := by
  -- a key enters the queue only if it is signed, so the fuel is enough
  have htargets : ∀ a, ∀ b ∈ w.signedBy prim a,
      b ∈ w.signatures.map (·.subjectFingerprint) := by
    intro a b hb
    obtain ⟨sig, hsig, rfl⟩ := List.mem_map.mp hb
    exact List.mem_map_of_mem (List.mem_of_mem_filter hsig)
  have hlength : (order.visit w.ownFingerprints).length = w.ownFingerprints.length :=
    (order.perm _).length_eq
  have henough : (order.visit w.ownFingerprints).length +
      (w.signatures.map (·.subjectFingerprint)).length <
        (order.visit w.ownFingerprints).length + w.signatures.length + 1 := by
    rw [List.length_map]
    exact Nat.lt_succ_self _
  rw [trustPathSearch, trustPathLoop_eq_search, trustPathLoop_eq_search]
  rcases search_spec (order.visit w.ownFingerprints) fp htargets henough with
    ⟨path, hloop, hshortest⟩ | ⟨hloop, hnone⟩
  · rw [hloop, Option.getD_some]
    refine ⟨search_mono hloop (by omega), Or.inl ⟨path, rfl, ?_, fun path' hpath' => ?_⟩⟩
    · exact pathFrom_visit_iff.mp hshortest.isPath
    · exact hshortest.le_length path' (pathFrom_visit_iff.mpr hpath')
  · rw [hloop, Option.getD_some]
    exact ⟨search_mono hloop (by omega),
      Or.inr ⟨rfl, fun path hpath => hnone path (pathFrom_visit_iff.mpr hpath)⟩⟩

/-- `trust_path` is a shortest-path search. For every Web of Trust, every order in which our own
keys are enumerated and every fingerprint that is not our own: the loop ends; if a path of stored
signatures that verify leads from an own key to the fingerprint, the result shows the fingerprints
on such a path, and none is shorter; otherwise it is the entry for no path. -/
theorem trustPath_shortest (prim : Primitives) (w : WebOfTrust) (order : IterOrder String)
    (fp : String) (hown : fp ∉ w.ownFingerprints) :
    (∀ fuel, w.ownFingerprints.length + w.signatures.length < fuel →
      w.trustPathLoop prim fp fuel ((order.visit w.ownFingerprints).map fun fp => (fp, [fp]))
        (order.visit w.ownFingerprints) = some (w.trustPathSearch prim order fp)) ∧
    ((∃ path, PathFrom (w.Signed prim) w.ownFingerprints path fp) →
      ∃ path, w.trustPathSearch prim order fp = some path ∧
        w.trustPath prim order fp = path.mapM fingerprintShort ∧
        ShortestPath (w.Signed prim) w.ownFingerprints path fp) ∧
    ((¬ ∃ path, PathFrom (w.Signed prim) w.ownFingerprints path fp) →
      w.trustPathSearch prim order fp = none ∧
        w.trustPath prim order fp = some ["(no trust path found)"]) := by
  refine ⟨fun fuel hfuel => (trustPathLoop_spec prim w order fp hfuel).1, ?_⟩
  rw [trustPath, if_neg hown]
  rcases (trustPathLoop_spec prim w order fp (Nat.lt_succ_self _)).2 with
    ⟨path, hsearch, hshortest⟩ | ⟨hsearch, hnone⟩
  · rw [hsearch]
    exact ⟨fun _ => ⟨path, rfl, rfl, hshortest⟩,
      fun hnot => absurd ⟨path, hshortest.isPath⟩ hnot⟩
  · rw [hsearch]
    exact ⟨fun ⟨path, hpath⟩ => absurd hpath (hnone path), fun _ => ⟨rfl, rfl⟩⟩

/-- The path to a key that our own key has signed. -/
theorem trustPath_shortest_bob :
    ∃ path, (new.run headPrimitives (aliceSignsBob 2)).trustPathSearch headPrimitives .stored
        bobPgp.fingerprint = some path ∧
      (new.run headPrimitives (aliceSignsBob 2)).trustPath headPrimitives .stored
        bobPgp.fingerprint = path.mapM fingerprintShort ∧
      ShortestPath ((new.run headPrimitives (aliceSignsBob 2)).Signed headPrimitives)
        (new.run headPrimitives (aliceSignsBob 2)).ownFingerprints path bobPgp.fingerprint :=
  (trustPath_shortest headPrimitives (new.run headPrimitives (aliceSignsBob 2)) .stored
    bobPgp.fingerprint (by decide +kernel)).2.1
    ⟨[alicePgp.fingerprint] ++ [bobPgp.fingerprint],
      .step (.source (by decide +kernel)) ⟨.create headPrimitives (Vector.replicate 32 0xaa)
        alicePgp.fingerprint bobPgp.fingerprint 2 0, by decide +kernel, rfl, rfl,
        by decide +kernel⟩⟩

/-- Fingerprints that are ASCII texts can be shortened, so a path of such fingerprints is shown. -/
theorem exists_trustPath_of_ascii (prim : Primitives) (w : WebOfTrust) (order : IterOrder String)
    (fp : String) (hascii : ∀ a, a ∈ w.ownFingerprints ∨ (∃ b, w.Signed prim b a) →
      ∀ c ∈ a.toList, c.toNat < 128) :
    ∃ shown, w.trustPath prim order fp = some shown := by
  rw [trustPath]
  split_ifs with hown
  · obtain ⟨short, hshort⟩ := exists_fingerprintShort_of_ascii (hascii fp (Or.inl hown))
    rw [hshort]
    exact ⟨_, rfl⟩
  · rcases (trustPathLoop_spec prim w order fp (Nat.lt_succ_self _)).2 with
      ⟨path, hsearch, hshortest⟩ | ⟨hsearch, -⟩
    · rw [hsearch]
      refine exists_mapM_eq_some_iff.mpr fun a ha => exists_fingerprintShort_of_ascii ?_
      exact hshortest.isPath.forall_mem (fun a ha => hascii a (Or.inl ha))
        (fun a b hab => hascii b (Or.inr ⟨a, hab⟩)) a ha
    · rw [hsearch]
      exact ⟨_, rfl⟩

end WebOfTrust

end ChronoShift
