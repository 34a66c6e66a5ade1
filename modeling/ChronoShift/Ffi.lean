import ChronoShift.Net.SecureFrames

/-!
# Encryption for C callers

`rust_encrypt_e2e` and `rust_decrypt_e2e` of `ffi.rs`. Both refuse null pointers and, before they
read anything, a buffer that is empty or has more than 65536 bytes. The plaintext and the ciphertext
have the same limit, so not all that is encrypted is decrypted again.

A pointer is the bytes that may be read from it, or `none` where it is null. What is returned is the
buffer with the length that is written to `out_len`, or `none` for the null pointer.

* `cryptForC_eq_some_iff`: what passes the checks of the two functions;
* `decrypts_iff`: what is decrypted after it has been encrypted.
-/

namespace ChronoShift

/-- The frame that the two functions share: the checks of their arguments, and the length that is
reported, a `u32`. -/
def cryptForC (crypt : Bytes → Bytes32 → Option Bytes) (input : Option Bytes) (inputLen : ℕ)
    (key : Option Bytes32) (outLenIsNull : Bool) : Option (Bytes × ℕ) :=
  match input, key with
  | some memory, some karr =>
    if outLenIsNull then none
    else if inputLen = 0 ∨ 65536 < inputLen then none
    else (crypt (memory.take inputLen) karr).map fun r => (r, r.length % 2 ^ 32)
  | _, _ => none

/-- `nonce` is drawn at random. -/
def rustEncryptE2e (aead : Aead) (nonce : Vector UInt8 12) (plaintext : Option Bytes)
    (plaintextLen : ℕ) (key : Option Bytes32) (outLenIsNull : Bool) : Option (Bytes × ℕ) :=
  cryptForC (encryptE2e aead nonce) plaintext plaintextLen key outLenIsNull

def rustDecryptE2e (aead : Aead) (enc : Option Bytes) (encLen : ℕ) (key : Option Bytes32)
    (outLenIsNull : Bool) : Option (Bytes × ℕ) :=
  cryptForC (decryptE2e aead) enc encLen key outLenIsNull

variable {aead : Aead} {nonce : Vector UInt8 12} {key : Bytes32} {memory out : Bytes}
  {len outLen : ℕ}

/-- A buffer is returned for an input of at most 65536 bytes that is not empty. -/
theorem cryptForC_eq_some_iff {crypt : Bytes → Bytes32 → Option Bytes} :
    cryptForC crypt (some memory) len (some key) false = some (out, outLen) ↔
      0 < len ∧ len ≤ 65536 ∧ crypt (memory.take len) key = some out ∧
      outLen = out.length % 2 ^ 32 := by
  rw [cryptForC, if_neg Bool.false_ne_true]
  split
  next hlen => exact iff_of_false (fun h => by cases h) fun h => by omega
  next hlen =>
    rw [Option.map_eq_some_iff]
    constructor
    · rintro ⟨r, hr, heq⟩
      obtain ⟨rfl, rfl⟩ := Prod.mk.inj heq
      exact ⟨by omega, by omega, hr, rfl⟩
    · rintro ⟨-, -, hr, rfl⟩
      exact ⟨out, hr, rfl⟩

/-- For a plaintext that `rust_encrypt_e2e` returns a buffer for, `rust_decrypt_e2e` returns the
plaintext for this buffer if and only if the plaintext has at most 65508 bytes. -/
theorem decrypts_iff (law : aead.Lawful) {plaintext : Bytes} (hlen : len ≤ plaintext.length)
    (h : rustEncryptE2e aead nonce (some plaintext) len (some key) false = some (out, outLen)) :
    rustDecryptE2e aead (some out) outLen (some key) false = some (plaintext.take len, len) ↔
      len ≤ 65508 := by
  obtain ⟨hpos, hle, henc, rfl⟩ := cryptForC_eq_some_iff.mp h
  have hplain : (plaintext.take len).length = len := List.length_take_of_le hlen
  -- nonce and tag
  have hout : out.length = len + 28 := by rw [length_encryptE2e law henc, hplain]
  have hreported : out.length % 2 ^ 32 = len + 28 := by omega
  have hdec : decryptE2e aead (out.take (len + 28)) key = some (plaintext.take len) := by
    rw [← hout, List.take_length, decryptE2e_encryptE2e law henc]
  rw [rustDecryptE2e, cryptForC_eq_some_iff, hreported]
  constructor
  · rintro ⟨-, hlimit, -, -⟩
    omega
  · intro hlimit
    exact ⟨by omega, by omega, hdec, by omega⟩

/-- A plaintext of three bytes. -/
theorem decrypts_iff_three :
    rustDecryptE2e sampleAead
        (some (List.replicate 12 0 ++ [1, 2, 3] ++ List.replicate 16 7)) 31 (some (sampleKey 7))
        false = some ([1, 2, 3], 3) ↔ 3 ≤ 65508 :=
  @decrypts_iff sampleAead (.replicate 12 0) (sampleKey 7) _ 3 31 sampleAead_lawful [1, 2, 3]
    (by decide) rfl

/-- A plaintext of 65509 bytes is encrypted, and the buffer is refused. -/
theorem encrypted_not_decrypted :
    ¬ ∀ (aead : Aead) (nonce : Vector UInt8 12) (key : Bytes32) (plaintext out : Bytes)
      (len outLen : ℕ), aead.Lawful → len ≤ plaintext.length →
      rustEncryptE2e aead nonce (some plaintext) len (some key) false = some (out, outLen) →
      rustDecryptE2e aead (some out) outLen (some key) false = some (plaintext.take len, len) := by
  intro hclaim
  obtain ⟨n, hn, hn'⟩ : ∃ n, 65508 < n ∧ n ≤ 65536 := ⟨65509, by decide, by decide⟩
  obtain ⟨out, hout⟩ : ∃ out, encryptE2e sampleAead (.replicate 12 0)
      ((List.replicate n 0).take n) (sampleKey 7) = some out := ⟨_, rfl⟩
  have hlen : out.length = n + 28 := by
    rw [length_encryptE2e sampleAead_lawful hout, List.length_take, List.length_replicate, min_self]
  have henc : rustEncryptE2e sampleAead (.replicate 12 0) (some (List.replicate n 0)) n
      (some (sampleKey 7)) false = some (out, out.length % 2 ^ 32) :=
    cryptForC_eq_some_iff.mpr ⟨by omega, hn', hout, rfl⟩
  have hdec := hclaim sampleAead (.replicate 12 0) (sampleKey 7) _ out n _ sampleAead_lawful
    (List.length_replicate.ge) henc
  obtain ⟨-, hlimit, -, -⟩ := cryptForC_eq_some_iff.mp hdec
  omega

end ChronoShift
