import ChronoShift.Identity
import ChronoShift.Text

/-!
# The texts of a byte string

`hex_decode` of `identity.rs` is meant to accept the hexadecimal text of a byte string in either
case. It cuts the text into pairs, and `u8::from_str_radix` reads a plus sign and one digit as a
pair, too. So the texts with a plus sign in front of a digit are further texts of a byte string.

* `hexDecode_eq_hexPairs`: what is refused at first does not consist of pairs;
* `hexPairs_isSome`: the texts that are accepted;
* `hexEncode_of_hexDecode`: the round trip from the text in lower case;
* `hex_canonical_iff`: the texts that are treated as they should be.
-/

namespace ChronoShift

/-- A hexadecimal digit of either case. -/
def isHexDigit (c : Char) : Bool := isLowerHexDigit c || ('A' ≤ c && c ≤ 'F')

/-- An even number of hexadecimal digits of either case, which in lower case are the text that
`hex_encode` writes for the byte string. -/
structure IsHexText (hex : String) (bytes : Bytes) : Prop where
  even : hex.length % 2 = 0
  digits : hex.toList.all isHexDigit = true
  lower : toAsciiLowercase hex = hexEncode bytes

/-- Pairs of characters that are read as bytes: two digits, or a plus sign and a digit. -/
def isPairs : List Char → Bool
  | [] => true
  | [_] => false
  | c₁ :: c₂ :: cs => (c₁ = '+' || isHexDigit c₁) && isHexDigit c₂ && isPairs cs

/-- The ASCII characters among the digits: each is the digit of its value, in lower case. -/
theorem hexDigit_spec : ∀ n < 128,
    if isHexDigit (Char.ofNat n) then
      Char.ofNat n ≠ '+' ∧ ∃ d < 16, hexDigit (Char.ofNat n) = some d ∧
        Nat.digitChar d = (Char.ofNat n).toLower
    else hexDigit (Char.ofNat n) = none := by
  decide

/-- A character beyond ASCII is no digit. -/
theorem not_digit_of_le {c : Char} (h : 128 ≤ c.toNat) :
    isHexDigit c = false ∧ hexDigit c = none := by
  have hnot {d : Char} (hd : d.toNat < 128) : ¬ c ≤ d := by
    rw [Char.le_def, UInt32.le_iff_toNat_le]
    exact not_le.mpr (lt_of_lt_of_le hd h)
  have hnine : ¬ c ≤ '9' := hnot (by decide)
  have hf : ¬ c ≤ 'f' := hnot (by decide)
  have hF : ¬ c ≤ 'F' := hnot (by decide)
  simp [isHexDigit, isLowerHexDigit, hexDigit, hnine, hf, hF]

/-- A digit is the digit of its value, in lower case. -/
theorem digitChar_of_isHexDigit {c : Char} (h : isHexDigit c = true) :
    c ≠ '+' ∧ ∃ d < 16, hexDigit c = some d ∧ Nat.digitChar d = c.toLower := by
  by_cases hascii : c.toNat < 128
  · simpa only [Char.ofNat_toNat, h, if_true] using hexDigit_spec c.toNat hascii
  · rw [(not_digit_of_le (not_lt.mp hascii)).1] at h
    cases h

theorem hexDigit_eq_none {c : Char} (h : isHexDigit c = false) : hexDigit c = none := by
  by_cases hascii : c.toNat < 128
  · simpa only [Char.ofNat_toNat, h, Bool.false_eq_true, if_false] using
      hexDigit_spec c.toNat hascii
  · exact (not_digit_of_le (not_lt.mp hascii)).2

/-- The pairs that are read as a byte. -/
theorem fromStrRadix16_isSome (c₁ c₂ : Char) :
    (fromStrRadix16 c₁ c₂).isSome = ((c₁ = '+' || isHexDigit c₁) && isHexDigit c₂) := by
  have hsome (c : Char) : (hexDigit c).isSome = isHexDigit c := by
    cases h : isHexDigit c with
    | true =>
      obtain ⟨-, d, -, hd, -⟩ := digitChar_of_isHexDigit h
      rw [hd, Option.isSome_some]
    | false => rw [hexDigit_eq_none h, Option.isSome_none]
  rw [fromStrRadix16, ← hsome, ← hsome]
  split
  next hsign => simp [hsign]
  next hsign =>
    cases hexDigit c₁ with
    | none => simp [hsign]
    | some hi => cases hexDigit c₂ <;> simp

/-- Two digits are the text of the byte that they are read as. -/
theorem hexByte_of_fromStrRadix16 {c₁ c₂ : Char} {b : UInt8} (h₁ : isHexDigit c₁ = true)
    (h₂ : isHexDigit c₂ = true) (h : fromStrRadix16 c₁ c₂ = some b) :
    hexByte b = [c₁.toLower, c₂.toLower] := by
  obtain ⟨hsign, hi, hhi, hdec₁, henc₁⟩ := digitChar_of_isHexDigit h₁
  obtain ⟨-, lo, hlo, hdec₂, henc₂⟩ := digitChar_of_isHexDigit h₂
  rw [fromStrRadix16, if_neg hsign, hdec₁, hdec₂] at h
  obtain rfl : UInt8.ofNat (hi * 16 + lo) = b := Option.some.inj h
  have hval : (UInt8.ofNat (hi * 16 + lo)).toNat = hi * 16 + lo := by
    rw [UInt8.toNat_ofNat', Nat.mod_eq_of_lt (by omega)]
  have hdiv : (hi * 16 + lo) / 16 = hi := by omega
  have hmod : (hi * 16 + lo) % 16 = lo := by omega
  rw [hexByte, hval, hdiv, hmod, henc₁, henc₂]

/-- The texts that are accepted consist of pairs. -/
theorem hexPairs_isSome (cs : List Char) : (hexPairs cs).isSome = isPairs cs := by
  induction cs using hexPairs.induct with
  | case1 => rfl
  | case2 => rfl
  | case3 c₁ c₂ cs ih =>
    rw [hexPairs, isPairs, ← fromStrRadix16_isSome, ← ih]
    cases fromStrRadix16 c₁ c₂ with
    | none => rfl
    | some b => cases hexPairs cs <;> rfl

/-- An even number of digits consists of pairs. -/
theorem isPairs_of_digits {cs : List Char} (hdigits : cs.all isHexDigit = true)
    (heven : cs.length % 2 = 0) : isPairs cs = true := by
  induction cs using hexPairs.induct with
  | case1 => rfl
  | case2 => cases heven
  | case3 c₁ c₂ cs ih =>
    simp only [List.all_cons, Bool.and_eq_true] at hdigits
    obtain ⟨h₁, h₂, hcs⟩ := hdigits
    rw [List.length_cons, List.length_cons] at heven
    rw [isPairs, h₁, h₂, ih hcs (by omega), Bool.or_true]
    rfl

/-- Pairs are an even number of ASCII characters, and digits apart from the signs. -/
theorem isPairs_spec {cs : List Char} (h : isPairs cs = true) :
    cs.length % 2 = 0 ∧ ∀ c ∈ cs, c.toNat < 128 ∧ (c = '+' ∨ isHexDigit c = true) := by
  have hascii {c : Char} (hc : isHexDigit c = true) : c.toNat < 128 := by
    by_contra hbeyond
    rw [(not_digit_of_le (not_lt.mp hbeyond)).1] at hc
    cases hc
  induction cs using hexPairs.induct with
  | case1 => exact ⟨rfl, fun c hc => absurd hc List.not_mem_nil⟩
  | case2 => cases h
  | case3 c₁ c₂ cs ih =>
    simp only [isPairs, Bool.and_eq_true, Bool.or_eq_true, decide_eq_true_eq] at h
    obtain ⟨⟨h₁, h₂⟩, hcs⟩ := h
    obtain ⟨heven, hrest⟩ := ih hcs
    refine ⟨by rw [List.length_cons, List.length_cons]; omega, ?_⟩
    refine List.forall_mem_cons.mpr
      ⟨⟨?_, h₁⟩, List.forall_mem_cons.mpr ⟨⟨hascii h₂, Or.inr h₂⟩, hrest⟩⟩
    rcases h₁ with rfl | h₁
    · decide
    · exact hascii h₁

/-- Digits that are read as a byte string are its text, in lower case. -/
theorem map_toLower_of_hexPairs {cs : List Char} {bytes : Bytes}
    (hdigits : cs.all isHexDigit = true) (h : hexPairs cs = some bytes) :
    cs.map Char.toLower = bytes.flatMap hexByte := by
  induction cs using hexPairs.induct generalizing bytes with
  | case1 =>
    cases h
    rfl
  | case2 => cases h
  | case3 c₁ c₂ cs ih =>
    simp only [List.all_cons, Bool.and_eq_true] at hdigits
    obtain ⟨h₁, h₂, hcs⟩ := hdigits
    simp only [hexPairs, Option.bind_eq_bind, Option.bind_eq_some_iff, Option.pure_def,
      Option.some.injEq] at h
    obtain ⟨b, hb, bs, hbs, rfl⟩ := h
    rw [List.map_cons, List.map_cons, ih hcs hbs, List.flatMap_cons,
      hexByte_of_fromStrRadix16 h₁ h₂ hb]
    rfl

/-- The refusals at first only concern texts that do not consist of pairs. -/
theorem hexDecode_eq_hexPairs (hex : String) : hexDecode hex = hexPairs hex.toList := by
  cases h : isPairs hex.toList with
  | true =>
    obtain ⟨heven, hchars⟩ := isPairs_spec h
    have hdecode := hexDecode_ofList (fun c hc => (hchars c hc).1) heven
    rwa [String.ofList_toList] at hdecode
  | false =>
    have hnone : hexPairs hex.toList = none := by
      rw [← Option.not_isSome_iff_eq_none, hexPairs_isSome, h]
      exact Bool.false_ne_true
    rw [hexDecode, hnone, ite_self]

/-- The text that `hex_encode` writes is the only one in lower case that is decoded to the same. -/
theorem hexEncode_of_hexDecode {hex : String} {bytes : Bytes} (h : hexDecode hex = some bytes)
    (hlower : isLowerHex hex = true) : hexEncode bytes = hex := by
  have hdigits : hex.toList.all isHexDigit = true := by
    refine List.all_eq_true.mpr fun c hc => ?_
    rw [isHexDigit, List.all_eq_true.mp hlower c hc, Bool.true_or]
  -- capital letters stand between the digits and the small letters
  have hcase : toAsciiLowercase hex = hex := by
    refine toAsciiLowercase_eq_self_iff.mpr fun c hc hcapital => ?_
    have hdigit := List.all_eq_true.mp hlower c hc
    simp only [isLowerHexDigit, Bool.or_eq_true, Bool.and_eq_true, decide_eq_true_eq,
      Char.le_def, UInt32.le_iff_toNat_le] at hdigit hcapital
    have hbounds : '9'.val.toNat < 'A'.val.toNat ∧ 'Z'.val.toNat < 'a'.val.toNat := by decide
    omega
  rw [hexDecode_eq_hexPairs] at h
  rw [hexEncode, ← map_toLower_of_hexPairs hdigits h, ← toAsciiLowercase, hcase]

/-- A text of a byte string is accepted as such. -/
theorem IsHexText.hexDecode {hex : String} {bytes : Bytes} (h : IsHexText hex bytes) :
    hexDecode hex = some bytes := by
  have hpairs : isPairs hex.toList = true := isPairs_of_digits h.digits h.even
  rw [← hexPairs_isSome, Option.isSome_iff_exists] at hpairs
  obtain ⟨bytes', hbytes'⟩ := hpairs
  have hlower := map_toLower_of_hexPairs h.digits hbytes'
  have hsame : hexEncode bytes = hexEncode bytes' := by
    rw [← h.lower, toAsciiLowercase, hlower, hexEncode]
  have hdecode := hexDecode_hexEncode bytes
  rw [hsame, hexDecode_hexEncode] at hdecode
  rw [hexDecode_eq_hexPairs, hbytes', hdecode]

/-- A text of digits that is accepted is a text of what it is accepted as. -/
theorem isHexText_of_hexDecode {hex : String} {bytes : Bytes} (h : hexDecode hex = some bytes)
    (hsign : '+' ∉ hex.toList) : IsHexText hex bytes := by
  rw [hexDecode_eq_hexPairs] at h
  have hpairs : isPairs hex.toList = true := by
    rw [← hexPairs_isSome, h, Option.isSome_some]
  obtain ⟨heven, hchars⟩ := isPairs_spec hpairs
  have hdigits : hex.toList.all isHexDigit = true := by
    refine List.all_eq_true.mpr fun c hc => ?_
    exact (hchars c hc).2.resolve_left fun heq => hsign (heq ▸ hc)
  refine ⟨heven, hdigits, ?_⟩
  rw [toAsciiLowercase, map_toLower_of_hexPairs hdigits h, hexEncode]

/-- The text of a byte string is decoded to it. A text is decoded to exactly the byte strings that
it is a text of, if and only if there is no plus sign in it, or it does not consist of pairs. -/
theorem hex_canonical_iff (hex : String) :
    (∀ bytes, hexDecode (hexEncode bytes) = some bytes) ∧
    ((∀ bytes, hexDecode hex = some bytes ↔ IsHexText hex bytes) ↔
      '+' ∉ hex.toList ∨ isPairs hex.toList = false) := by
  refine ⟨hexDecode_hexEncode, fun h => ?_, fun h bytes => ⟨fun hdecode => ?_, ?_⟩⟩
  · refine or_iff_not_imp_right.mpr fun hpairs hsign => ?_
    rw [Bool.not_eq_false, ← hexPairs_isSome, ← hexDecode_eq_hexPairs,
      Option.isSome_iff_exists] at hpairs
    obtain ⟨bytes, hbytes⟩ := hpairs
    have hdigit := List.all_eq_true.mp ((h bytes).mp hbytes).digits '+' hsign
    revert hdigit
    decide
  · rcases h with hsign | hpairs
    · exact isHexText_of_hexDecode hdecode hsign
    · rw [← hexPairs_isSome, ← hexDecode_eq_hexPairs, hdecode] at hpairs
      cases hpairs
  · exact IsHexText.hexDecode

/-- A signed text is decoded to the byte of its digit, and is no text of it. -/
theorem signed_text_accepted :
    ¬ ((∀ bytes, hexDecode (hexEncode bytes) = some bytes) ∧
      ∀ (hex : String) (bytes : Bytes), hexDecode hex = some bytes ↔ IsHexText hex bytes) := by
  rintro ⟨-, hclaim⟩
  have htext := (hclaim "+f" [15]).mp (by decide)
  have hdigits := htext.digits
  revert hdigits
  decide

end ChronoShift
