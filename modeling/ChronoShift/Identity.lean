import ChronoShift.Basic

/-!
# Identity helpers

The hex codec of `identity.rs` and the uid check of `lib.rs`.

`hexDecode` reads two characters at a time with `u8::from_str_radix`, which also accepts a
leading plus sign; `hexDecode_hexEncode` is the round trip, and `hexTo32_hexEncode` its form for
32-byte keys.
-/

namespace ChronoShift

/-- The two lower-case digits of `format!("{:02x}", b)`. -/
def hexByte (b : UInt8) : List Char :=
  [Nat.digitChar (b.toNat / 16), Nat.digitChar (b.toNat % 16)]

/-- Lower-case hexadecimal text of a byte string. -/
def hexEncode (bytes : Bytes) : String := String.ofList (bytes.flatMap hexByte)

/-- The value of one hexadecimal digit of either case. -/
def hexDigit (c : Char) : Option ℕ :=
  if '0' ≤ c ∧ c ≤ '9' then some (c.toNat - '0'.toNat)
  else if 'a' ≤ c ∧ c ≤ 'f' then some (c.toNat - 'a'.toNat + 10)
  else if 'A' ≤ c ∧ c ≤ 'F' then some (c.toNat - 'A'.toNat + 10)
  else none

/-- `u8::from_str_radix(s, 16)` on a text of two characters: an optional plus sign, then
digits. -/
def fromStrRadix16 (c₁ c₂ : Char) : Option UInt8 :=
  if c₁ = '+' then (hexDigit c₂).map UInt8.ofNat
  else do
    let hi ← hexDigit c₁
    let lo ← hexDigit c₂
    return UInt8.ofNat (hi * 16 + lo)

/-- Decode the characters in steps of two. -/
def hexPairs : List Char → Option Bytes
  | [] => some []
  | [_] => none
  | c₁ :: c₂ :: cs => do
    let b ← fromStrRadix16 c₁ c₂
    let bs ← hexPairs cs
    return b :: bs

/-- Decode hexadecimal text; odd-length and non-ASCII input is refused. -/
def hexDecode (hex : String) : Option Bytes :=
  if hex.utf8ByteSize % 2 ≠ 0 ∨ ¬ hex.toList.all (fun c => c.toNat < 128) then none
  else hexPairs hex.toList

/-- `<[u8; 32]>::try_from`. -/
def toBytes32 (b : Bytes) : Option Bytes32 :=
  if h : b.length = 32 then some ⟨b.toArray, by simpa using h⟩ else none

/-- The sixteen digits: each is read back, is no sign, and is an ASCII character. -/
theorem digitChar_spec : ∀ n < 16, hexDigit (Nat.digitChar n) = some n ∧
    Nat.digitChar n ≠ '+' ∧ (Nat.digitChar n).toNat < 128 := by
  decide

/-- Reading back the two digits of a byte gives the byte. -/
theorem fromStrRadix16_hexByte (b : UInt8) :
    fromStrRadix16 (Nat.digitChar (b.toNat / 16)) (Nat.digitChar (b.toNat % 16)) = some b := by
  have hb : b.toNat < 256 := UInt8.toNat_lt b
  obtain ⟨hhi, hsign, -⟩ := digitChar_spec (b.toNat / 16) (by omega)
  obtain ⟨hlo, -, -⟩ := digitChar_spec (b.toNat % 16) (by omega)
  have hval : b.toNat / 16 * 16 + b.toNat % 16 = b.toNat := by omega
  rw [fromStrRadix16, if_neg hsign, hhi, hlo]
  show some (UInt8.ofNat (b.toNat / 16 * 16 + b.toNat % 16)) = some b
  rw [hval, UInt8.ofNat_toNat]

theorem hexPairs_flatMap_hexByte (bytes : Bytes) :
    hexPairs (bytes.flatMap hexByte) = some bytes := by
  induction bytes with
  | nil => rfl
  | cons b bs ih =>
    show (fromStrRadix16 (Nat.digitChar (b.toNat / 16)) (Nat.digitChar (b.toNat % 16))).bind
      (fun b => (hexPairs (bs.flatMap hexByte)).bind fun bs => some (b :: bs)) = _
    rw [fromStrRadix16_hexByte, ih]
    rfl

/-- Both digits of a byte are ASCII characters. -/
theorem hexByte_ascii (b : UInt8) : ∀ c ∈ hexByte b, c.toNat < 128 := by
  have hb : b.toNat < 256 := UInt8.toNat_lt b
  intro c hc
  simp only [hexByte, List.mem_cons, List.not_mem_nil, or_false] at hc
  rcases hc with rfl | rfl
  · exact (digitChar_spec (b.toNat / 16) (by omega)).2.2
  · exact (digitChar_spec (b.toNat % 16) (by omega)).2.2

/-- An ASCII text has one byte per character. -/
theorem utf8ByteSize_ofList_ascii (l : List Char) (h : ∀ c ∈ l, c.toNat < 128) :
    (String.ofList l).utf8ByteSize = l.length := by
  induction l with
  | nil => rfl
  | cons c l ih =>
    have hc : c.toNat < 128 := h c List.mem_cons_self
    have hsize : c.utf8Size = 1 := Char.utf8Size_eq_one_iff.mpr
      (UInt32.le_iff_toNat_le.mpr (Nat.le_of_lt_succ hc))
    rw [← List.singleton_append, String.ofList_append, String.utf8ByteSize_append,
      ← String.singleton_eq_ofList, String.utf8ByteSize_singleton, hsize,
      ih fun c' hc' => h c' (List.mem_cons_of_mem _ hc')]
    simp [Nat.add_comm]

/-- Neither refusal applies to an ASCII text of even length. -/
theorem hexDecode_ofList {l : List Char} (hascii : ∀ c ∈ l, c.toNat < 128)
    (heven : l.length % 2 = 0) : hexDecode (String.ofList l) = hexPairs l := by
  rw [hexDecode, String.toList_ofList, if_neg]
  rw [utf8ByteSize_ofList_ascii _ hascii, heven, List.all_eq_true.mpr]
  · simp
  · intro c hc
    exact decide_eq_true (hascii c hc)

/-- Decoding the hexadecimal text of a byte string gives the byte string. -/
theorem hexDecode_hexEncode (bytes : Bytes) : hexDecode (hexEncode bytes) = some bytes := by
  have hascii : ∀ c ∈ bytes.flatMap hexByte, c.toNat < 128 := by
    intro c hc
    obtain ⟨b, -, hcb⟩ := List.mem_flatMap.mp hc
    exact hexByte_ascii b c hcb
  have hlen : (bytes.flatMap hexByte).length = bytes.length * 2 := by
    rw [List.length_flatMap]
    simp [hexByte]
  rw [hexEncode, hexDecode_ofList hascii (by rw [hlen, Nat.mul_mod_left]),
    hexPairs_flatMap_hexByte]

/-- A 32-byte key survives its hexadecimal text. -/
theorem hexTo32_hexEncode (key : Bytes32) :
    (hexDecode (hexEncode key.toList)).bind toBytes32 = some key := by
  rw [hexDecode_hexEncode, Option.bind_some, toBytes32, dif_pos (by simp)]
  congr 1

/-- A digit as `hex_encode` writes it. -/
def isLowerHexDigit (c : Char) : Bool := ('0' ≤ c && c ≤ '9') || ('a' ≤ c && c ≤ 'f')

/-- A text of digits as `hex_encode` writes them. -/
def isLowerHex (hex : String) : Bool := hex.toList.all isLowerHexDigit

/-- `validate_uid`: between 1 and 64 bytes, all of them ASCII letters, digits or one of
`. _ - @ : [ ]`. -/
def validateUid (uid : String) : Bool :=
  !(asBytes uid).isEmpty && (asBytes uid).length ≤ 64 && (asBytes uid).all fun b =>
    (48 ≤ b && b ≤ 57) || (65 ≤ b && b ≤ 90) || (97 ≤ b && b ≤ 122) ||
      [46, 95, 45, 64, 58, 91, 93].contains b

end ChronoShift
