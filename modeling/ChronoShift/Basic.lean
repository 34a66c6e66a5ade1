import ChronoShift.ToMathlib.HashMap
import ChronoShift.ToMathlib.BigEndian

/-!
# Bytes, text and primitives

The data every component shares: byte strings, 32-byte arrays, UTF-8 text, and the cryptographic
primitives the program imports from other crates.

A Rust `String` is a Lean `String`; both are valid UTF-8, and both are ordered by code points.
`asBytes` and `fromUtf8` are `str::as_bytes` and `String::from_utf8`. Unsigned 64-bit counters
and lengths are natural numbers; the eight-bit and 32-bit fields whose range the program depends
on are reduced where the program reduces them.

The imported primitives are the fields of `Primitives`: arbitrary functions of the types the
program uses them at. What a result needs of them it states as a hypothesis.
-/

namespace ChronoShift

export ToMathlib (HashMap IterOrder beBytes ofBeBytes)

/-- A byte string, `Vec<u8>` or `&[u8]`. -/
abbrev Bytes := List UInt8

/-- A 32-byte array, `[u8; 32]`. -/
abbrev Bytes32 := Vector UInt8 32

/-- `str::as_bytes`. -/
def asBytes (s : String) : Bytes := s.toByteArray.data.toList

/-- `String::from_utf8`, without the error value. -/
def fromUtf8 (b : Bytes) : Option String := String.fromUTF8? ⟨b.toArray⟩

/-- Decoding the bytes of a string gives the string. -/
@[simp]
theorem fromUtf8_asBytes (s : String) : fromUtf8 (asBytes s) = some s := by
  have hb : (⟨(asBytes s).toArray⟩ : ByteArray) = s.toByteArray := by
    simp [asBytes]
  rw [fromUtf8, hb, String.fromUTF8?, dif_pos s.isValidUTF8]
  rfl

/-- A text is told by its bytes. -/
theorem asBytes_injective : Function.Injective asBytes := by
  intro s t h
  have hs := fromUtf8_asBytes s
  rw [h, fromUtf8_asBytes] at hs
  exact (Option.some.inj hs).symm

/-- The bytes of a text are the encodings of its characters. -/
theorem asBytes_eq_flatMap (s : String) : asBytes s = s.toList.flatMap String.utf8EncodeChar := by
  obtain ⟨l, rfl⟩ := s.exists_eq_ofList
  rw [String.toList_ofList, asBytes, String.toByteArray_ofList]
  simp [List.utf8Encode]

/-- The bytes of two texts, one after the other. -/
theorem asBytes_append (s t : String) : asBytes (s ++ t) = asBytes s ++ asBytes t := by
  rw [asBytes_eq_flatMap, asBytes_eq_flatMap, asBytes_eq_flatMap, String.toList_append,
    List.flatMap_append]

/-- The bytes of an ASCII text are its characters. -/
theorem asBytes_ofList_ascii {l : List Char} (h : ∀ c ∈ l, c.toNat < 128) :
    asBytes (String.ofList l) = l.map fun c => c.val.toUInt8 := by
  rw [asBytes_eq_flatMap, String.toList_ofList]
  induction l with
  | nil => rfl
  | cons c l ih =>
    have hsize : c.utf8Size = 1 := Char.utf8Size_eq_one_iff.mpr
      (UInt32.le_iff_toNat_le.mpr (Nat.le_of_lt_succ (h c List.mem_cons_self)))
    rw [List.flatMap_cons, String.utf8EncodeChar_eq_singleton hsize, List.map_cons,
      ih fun c' hc' => h c' (List.mem_cons_of_mem _ hc')]
    rfl

/-- The second byte `b` may follow the lead byte `lead` of a multi-byte sequence. -/
def utf8SecondOk (lead b : UInt8) : Bool :=
  if lead = 0xE0 then 0xA0 ≤ b && b ≤ 0xBF
  else if lead = 0xED then 0x80 ≤ b && b ≤ 0x9F
  else if lead = 0xF0 then 0x90 ≤ b && b ≤ 0xBF
  else if lead = 0xF4 then 0x80 ≤ b && b ≤ 0x8F
  else 0x80 ≤ b && b ≤ 0xBF

/-- How many bytes of an ill-formed input one replacement character stands for: the longest
prefix that some well-formed sequence starts with, and at least one byte. -/
def utf8InvalidLen : Bytes → ℕ
  | lead :: b₁ :: b₂ :: _ =>
    if 0xE0 ≤ lead && lead ≤ 0xF4 && utf8SecondOk lead b₁ then
      -- a third byte can belong to the prefix of a four-byte sequence only
      if 0xF0 ≤ lead && 0x80 ≤ b₂ && b₂ ≤ 0xBF then 3 else 2
    else 1
  | [lead, b₁] => if 0xE0 ≤ lead && lead ≤ 0xF4 && utf8SecondOk lead b₁ then 2 else 1
  | _ => 1

/-- The decoded text of the first well-formed character of `b`, with its length in bytes. -/
def utf8Head (b : Bytes) : Option (String × ℕ) :=
  -- no well-formed sequence is a prefix of another one, so at most one length decodes
  [1, 2, 3, 4].findSome? fun k =>
    if k ≤ b.length then (fromUtf8 (b.take k)).map fun s => (s, k) else none

/-- The decoding loop of `String::from_utf8_lossy` on at most `fuel` characters. -/
def utf8LossyLoop : ℕ → Bytes → String
  | 0, _ => ""
  | _ + 1, [] => ""
  | fuel + 1, b@(_ :: _) =>
    match utf8Head b with
    | some (s, k) => s ++ utf8LossyLoop fuel (b.drop k)
    | none => "\uFFFD" ++ utf8LossyLoop fuel (b.drop (utf8InvalidLen b))

/-- `String::from_utf8_lossy`: well-formed input is returned as it is, and each ill-formed
sequence is replaced by U+FFFD. -/
def fromUtf8Lossy (b : Bytes) : String :=
  match fromUtf8 b with
  | some s => s
  | none => utf8LossyLoop b.length b

/-- The bytes of a text lose nothing. -/
@[simp]
theorem fromUtf8Lossy_asBytes (s : String) : fromUtf8Lossy (asBytes s) = s := by
  simp [fromUtf8Lossy]

/-- `buf[start..start + src.len()].copy_from_slice(src)`. -/
def copyFromSlice (buf : Bytes) (start : ℕ) (src : Bytes) : Bytes :=
  buf.take start ++ src ++ buf.drop (start + src.length)

/-- Overwriting the middle part of a buffer by a slice of its length. -/
theorem copyFromSlice_append {start : ℕ} {front old back src : Bytes}
    (hstart : front.length = start) (hold : old.length = src.length) :
    copyFromSlice (front ++ old ++ back) start src = front ++ src ++ back := by
  subst hstart
  rw [copyFromSlice, List.append_assoc front, List.take_left, ← List.append_assoc front old back,
    ← hold, ← List.length_append, List.drop_left]

/-- The primitives of the imported crates, as functions of the bytes they are given. -/
structure Primitives where
  /-- `Sha256::digest`. -/
  sha256 : Bytes → Bytes32
  /-- `Hkdf::<Sha256>::new(salt, ikm)` followed by `expand(info)` to 32 bytes. -/
  hkdf : Option Bytes → Bytes → Bytes → Bytes32
  /-- `SigningKey::sign`, as the bytes of the signature. -/
  sign : Bytes32 → Bytes → Bytes
  /-- `SigningKey::verifying_key`. -/
  verifyingKey : Bytes32 → Bytes32
  /-- `VerifyingKey::from_bytes` accepts the bytes. -/
  isVerifyingKey : Bytes32 → Bool
  /-- The bytes parse as a signature that verifies on the message under the key. -/
  verify : Bytes32 → Bytes → Bytes → Bool
  /-- The X25519 public key of a secret. -/
  x25519Public : Bytes32 → Bytes32
  /-- `StaticSecret::diffie_hellman`. -/
  diffieHellman : Bytes32 → Bytes32 → Bytes32
  /-- `SharedSecret::was_contributory`. -/
  wasContributory : Bytes32 → Bool

/-- Constant primitives, for evaluating the model on fixed inputs. -/
def Primitives.const : Primitives where
  sha256 _ := .replicate 32 0
  hkdf _ _ _ := .replicate 32 0
  sign _ _ := []
  verifyingKey key := key
  isVerifyingKey _ := true
  verify _ _ _ := true
  x25519Public secret := secret
  diffieHellman _ _ := .replicate 32 0
  wasContributory _ := true

end ChronoShift
