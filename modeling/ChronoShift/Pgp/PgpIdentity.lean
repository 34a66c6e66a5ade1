import ChronoShift.Identity
import Mathlib.Order.Basic
import Mathlib.Order.Lattice

/-!
# Public identities and trust levels

The identities of `pgp/mod.rs`, the fingerprint of `identity.rs`, and the trust levels.

A fingerprint shows the first half of the SHA-256 hash of the key's hexadecimal text, so keys whose
hashes agree on these 16 bytes have one fingerprint (`fingerprintOfPublicHex_eq_iff`). An identity
that is built from a key carries the key's fingerprint; one that is imported carries whatever its
text says.
-/

namespace ChronoShift

/-! ## Fingerprints -/

/-- The groups of four characters, as `chunks(4)` cuts them. -/
def chunksOfFour : List Char → List (List Char)
  | c₁ :: c₂ :: c₃ :: c₄ :: cs => [c₁, c₂, c₃, c₄] :: chunksOfFour cs
  | [] => []
  | cs => [cs]

/-- `fingerprint_of_public_hex`: the first eight groups of four digits of the SHA-256 hash of the
text, in upper case. -/
def fingerprintOfPublicHex (prim : Primitives) (publicHex : String) : String :=
  let hex := hexEncode (prim.sha256 (asBytes publicHex)).toList
  let groups := (chunksOfFour hex.toList).take 8
  String.ofList (([' '].intercalate groups).map Char.toUpper)

theorem flatten_chunksOfFour (cs : List Char) : (chunksOfFour cs).flatten = cs := by
  induction cs using chunksOfFour.induct with
  | case1 c₁ c₂ c₃ c₄ cs ih => rw [chunksOfFour, List.flatten_cons, ih]; rfl
  | case2 => rfl
  | case3 cs hfour hnil => simp [chunksOfFour]

/-- The first groups are the groups of the first characters. -/
theorem take_chunksOfFour (cs : List Char) (k : ℕ) :
    (chunksOfFour cs).take k = chunksOfFour (cs.take (4 * k)) := by
  induction k generalizing cs with
  | zero => rfl
  | succ k ih =>
    rcases cs with _ | ⟨c₁, _ | ⟨c₂, _ | ⟨c₃, _ | ⟨c₄, cs⟩⟩⟩⟩
    -- an incomplete group is the last one
    · rfl
    · simp [chunksOfFour, Nat.mul_succ]
    · simp [chunksOfFour, Nat.mul_succ]
    · simp [chunksOfFour, Nat.mul_succ]
    · rw [chunksOfFour, List.take_succ_cons, ih]
      rfl

/-- The sixteen digits in upper case: each is read back, is no sign and no blank. -/
theorem toUpper_digitChar_spec : ∀ n < 16, hexDigit (Nat.digitChar n).toUpper = some n ∧
    (Nat.digitChar n).toUpper ≠ '+' ∧ (Nat.digitChar n).toUpper ≠ ' ' := by
  decide

/-- Reading back the digits in upper case gives the bytes. -/
theorem hexPairs_map_toUpper (bytes : Bytes) :
    hexPairs ((bytes.flatMap hexByte).map Char.toUpper) = some bytes := by
  induction bytes with
  | nil => rfl
  | cons b bs ih =>
    have hb : b.toNat < 256 := UInt8.toNat_lt b
    obtain ⟨hhi, hsign, -⟩ := toUpper_digitChar_spec (b.toNat / 16) (by omega)
    obtain ⟨hlo, -, -⟩ := toUpper_digitChar_spec (b.toNat % 16) (by omega)
    have hval : b.toNat / 16 * 16 + b.toNat % 16 = b.toNat := by omega
    show (fromStrRadix16 (Nat.digitChar (b.toNat / 16)).toUpper
      (Nat.digitChar (b.toNat % 16)).toUpper).bind
      (fun b => (hexPairs ((bs.flatMap hexByte).map Char.toUpper)).bind
        fun bs => some (b :: bs)) = _
    rw [fromStrRadix16, if_neg hsign, hhi, hlo, ih]
    show some (UInt8.ofNat (b.toNat / 16 * 16 + b.toNat % 16) :: bs) = some (b :: bs)
    rw [hval, UInt8.ofNat_toNat]

/-- Taking the separators out of joined groups gives the groups. -/
theorem filter_map_intercalate {groups : List (List Char)}
    (hgroups : ∀ c ∈ groups.flatten, c.toUpper ≠ ' ') :
    (([' '].intercalate groups).map Char.toUpper).filter (· ≠ ' ') =
      groups.flatten.map Char.toUpper := by
  have hkeep {cs : List Char} (hcs : ∀ c ∈ cs, c.toUpper ≠ ' ') :
      (cs.map Char.toUpper).filter (· ≠ ' ') = cs.map Char.toUpper := by
    refine List.filter_eq_self.mpr fun c hc => ?_
    obtain ⟨c', hc', rfl⟩ := List.mem_map.mp hc
    simpa using hcs c' hc'
  match groups with
  | [] => rfl
  | [g] =>
    rw [List.intercalate_singleton, List.flatten_singleton]
    exact hkeep (by simpa using hgroups)
  | g :: g' :: groups =>
    rw [List.flatten_cons] at hgroups ⊢
    have hrest := filter_map_intercalate
      (fun c hc => hgroups c (List.mem_append_right g hc) : ∀ c ∈ (g' :: groups).flatten, _)
    rw [List.intercalate_cons_cons, List.map_append, List.map_append, List.filter_append,
      List.filter_append, hrest, hkeep fun c hc => hgroups c (List.mem_append_left _ hc),
      List.map_append, List.append_assoc]
    rfl

/-- The digits of the first bytes. -/
theorem take_flatMap_hexByte (bytes : Bytes) (k : ℕ) :
    (bytes.flatMap hexByte).take (2 * k) = (bytes.take k).flatMap hexByte := by
  induction k generalizing bytes with
  | zero => rfl
  | succ k ih =>
    cases bytes with
    | nil => rfl
    | cons b bs =>
      rw [List.take_succ_cons, List.flatMap_cons, List.flatMap_cons, ← ih]
      rfl

/-- A fingerprint shows the first 16 bytes of the hash. -/
theorem fingerprintOfPublicHex_eq (prim : Primitives) (publicHex : String) :
    fingerprintOfPublicHex prim publicHex = String.ofList (([' '].intercalate (chunksOfFour
      (((prim.sha256 (asBytes publicHex)).toList.take 16).flatMap hexByte))).map Char.toUpper) := by
  rw [fingerprintOfPublicHex, hexEncode, String.toList_ofList]
  rw [take_chunksOfFour, ← take_flatMap_hexByte]

/-- Without its blanks, a fingerprint is read back as these 16 bytes. -/
theorem hexPairs_fingerprint (prim : Primitives) (publicHex : String) :
    hexPairs ((fingerprintOfPublicHex prim publicHex).toList.filter (· ≠ ' ')) =
      some ((prim.sha256 (asBytes publicHex)).toList.take 16) := by
  rw [fingerprintOfPublicHex_eq, String.toList_ofList, filter_map_intercalate,
    flatten_chunksOfFour, hexPairs_map_toUpper]
  intro c hc
  rw [flatten_chunksOfFour] at hc
  obtain ⟨b, -, hcb⟩ := List.mem_flatMap.mp hc
  have hb : b.toNat < 256 := UInt8.toNat_lt b
  simp only [hexByte, List.mem_cons, List.not_mem_nil, or_false] at hcb
  rcases hcb with rfl | rfl
  · exact (toUpper_digitChar_spec (b.toNat / 16) (by omega)).2.2
  · exact (toUpper_digitChar_spec (b.toNat % 16) (by omega)).2.2

/-- Two keys have one fingerprint exactly when their hashes agree on the first 16 bytes. -/
theorem fingerprintOfPublicHex_eq_iff {prim : Primitives} {a b : String} :
    fingerprintOfPublicHex prim a = fingerprintOfPublicHex prim b ↔
      (prim.sha256 (asBytes a)).toList.take 16 = (prim.sha256 (asBytes b)).toList.take 16 := by
  constructor
  · intro h
    have ha := hexPairs_fingerprint prim a
    rw [h, hexPairs_fingerprint] at ha
    exact (Option.some.inj ha).symm
  · intro h
    rw [fingerprintOfPublicHex_eq, fingerprintOfPublicHex_eq, h]

/-! ## Identities -/

/-- `Identity`: a key pair in hexadecimal. -/
structure Identity where
  uid : String
  secretHex : String
  publicHex : String
  created : ℕ
  deriving DecidableEq

/-- A public identity that can be shared and signed. -/
structure PgpIdentity where
  userId : String
  publicKeyHex : String
  fingerprint : String
  created : ℕ
  deriving DecidableEq

namespace PgpIdentity

/-- The identity of a uid and a key; `now` is the clock reading. -/
def fromParts (prim : Primitives) (now : ℕ) (userId publicKeyHex : String) : PgpIdentity :=
  ⟨userId, publicKeyHex, fingerprintOfPublicHex prim publicKeyHex, now⟩

/-- The public part of an identity. -/
def fromIdentity (prim : Primitives) (now : ℕ) (id : Identity) : PgpIdentity :=
  fromParts prim now (if id.uid.isEmpty then "anonymous" else id.uid) id.publicHex

/-- `PgpIdentity::import`. The text is read by `serde_json`, a parameter; all four fields are taken
from the text. -/
def importIdentity (fromStr : String → Except String PgpIdentity) (data : String) :
    Except String PgpIdentity :=
  match fromStr data with
  | .ok identity => .ok identity
  | .error e => .error s!"Invalid identity data: {e}"

end PgpIdentity

/-! ## Trust levels -/

/-- A trust level. -/
inductive TrustLevel where
  | never
  | unknown
  | marginal
  | full
  | ultimate
  deriving DecidableEq

namespace TrustLevel

/-- The discriminant of the variant. -/
def toI32 : TrustLevel → ℤ
  | never => -1
  | unknown => 0
  | marginal => 1
  | full => 2
  | ultimate => 3

/-- Every other number is `unknown`. -/
def fromI32 (v : ℤ) : TrustLevel :=
  if v = -1 then never
  else if v = 0 then unknown
  else if v = 1 then marginal
  else if v = 2 then full
  else if v = 3 then ultimate
  else unknown

theorem toI32_injective : Function.Injective toI32 := by
  intro a b h
  cases a <;> cases b <;> first | rfl | exact absurd h (by decide)

/-- The derived order is the order of the discriminants. -/
instance : LinearOrder TrustLevel := LinearOrder.lift' toI32 toI32_injective

/-- Only three numbers stand for a level of at least `marginal`. -/
theorem eq_of_marginal_le_fromI32 {v : ℤ} (h : marginal ≤ fromI32 v) : v = 1 ∨ v = 2 ∨ v = 3 := by
  unfold fromI32 at h
  split_ifs at h with hnever hunknown hmarginal hfull hultimate
  · exact absurd h (by decide)
  · exact absurd h (by decide)
  · exact Or.inl hmarginal
  · exact Or.inr (Or.inl hfull)
  · exact Or.inr (Or.inr hultimate)
  · exact absurd h (by decide)

/-- There is one step from `marginal` to `full`. -/
theorem eq_marginal_and_eq_full {a b : TrustLevel} (ha : marginal ≤ a) (hlt : a < b)
    (hb : b ≤ full) : a = marginal ∧ b = full := by
  cases a <;> cases b <;>
    first | exact ⟨rfl, rfl⟩ | exact absurd ha (by decide) | exact absurd hlt (by decide) |
      exact absurd hb (by decide)

/-- The height above `never`. -/
def rank (level : TrustLevel) : ℕ := (level.toI32 + 1).toNat

theorem rank_strictMono : StrictMono rank := by
  intro a b h
  cases a <;> cases b <;> first | decide | exact absurd h (by decide)

/-- No level lies between `unknown` and `marginal`. -/
theorem marginal_le_of_not_le {level : TrustLevel} (h : ¬ level ≤ .unknown) :
    .marginal ≤ level := by
  revert h
  cases level <;> decide

/-- No level lies between `marginal` and `full`. -/
theorem le_marginal_of_not_le {level : TrustLevel} (h : ¬ .full ≤ level) : level ≤ .marginal := by
  revert h
  cases level <;> decide

end TrustLevel

end ChronoShift
