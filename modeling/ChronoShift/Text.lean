import ChronoShift.Basic
import Mathlib.Data.List.DropRight

/-!
# Text

The string functions of the standard library that requests, announcements and keys are read with.

* `trim_eq_self`: a text that neither starts nor ends with whitespace;
* `exists_fromUtf8_take`, `exists_fromUtf8_drop`: where a text can be cut;
* `exists_shorten_iff`: the texts that can be shown as a label;
* `toAsciiLowercase_eq_self_iff`: the texts without capital letters of ASCII;
* `parseUnsigned_toString`: a number is read back from its digits.
-/

namespace ChronoShift

/-- `str::to_ascii_lowercase`. -/
def toAsciiLowercase (s : String) : String := String.ofList (s.toList.map Char.toLower)

/-- `char::is_whitespace`: the characters with the property `White_Space`. -/
def isWhitespace (c : Char) : Bool :=
  let n := c.toNat
  (9 ≤ n && n ≤ 13) || n = 0x20 || n = 0x85 || n = 0xA0 || n = 0x1680 ||
    (0x2000 ≤ n && n ≤ 0x200A) || n = 0x2028 || n = 0x2029 || n = 0x202F || n = 0x205F || n = 0x3000

/-- No character is whitespace. -/
def NoWhitespace (s : String) : Prop := ∀ c ∈ s.toList, isWhitespace c = false

instance (s : String) : Decidable (NoWhitespace s) :=
  List.decidableBAll (isWhitespace · = false) s.toList

/-- `str::trim_end`. -/
def trimEnd (s : String) : String := String.ofList (s.toList.rdropWhile isWhitespace)

/-- `str::trim`. -/
def trim (s : String) : String :=
  String.ofList ((s.toList.dropWhile isWhitespace).rdropWhile isWhitespace)

/-- `str::split` at a character. -/
def split (sep : Char) (s : String) : List String := (s.toList.splitOn sep).map String.ofList

/-- `str::split_whitespace`. -/
def splitWhitespace (s : String) : List String :=
  ((s.toList.splitOnP isWhitespace).filter (!·.isEmpty)).map String.ofList

/-- `str::splitn(2, sep)`: what is before the first separator, and what follows it. -/
def splitn2 (sep : Char) (s : String) : String × Option String :=
  let front := s.toList.takeWhile (· ≠ sep)
  (String.ofList front,
    if sep ∈ s.toList then some (String.ofList (s.toList.drop (front.length + 1))) else none)

/-- `str::starts_with`. -/
def startsWith (s front : String) : Bool := front.toList.isPrefixOf s.toList

/-- `str::strip_prefix`. -/
def stripPrefix (s front : String) : Option String :=
  if startsWith s front then some (String.ofList (s.toList.drop front.toList.length)) else none

/-- `str::eq_ignore_ascii_case`. -/
def eqIgnoreAsciiCase (s t : String) : Bool := toAsciiLowercase s = toAsciiLowercase t

/-- `parse` of an unsigned integer below `bound`: an optional plus sign, and digits. -/
def parseUnsigned (bound : ℕ) (s : String) : Option ℕ :=
  let digits := match s.toList with
    | '+' :: rest => rest
    | cs => cs
  if digits = [] ∨ ¬ digits.all Char.isDigit then none
  else
    let n := Nat.ofDigitChars 10 digits 0
    if n < bound then some n else none

/-- `str::is_char_boundary`: a front of the text has `n` bytes. -/
def CharBoundary (s : String) (n : ℕ) : Prop :=
  ∃ front back : String, s = front ++ back ∧ (asBytes front).length = n

/-- The first and the last `n` bytes of a text that has as many, around a separator. `none` is the
panic of a slice that cuts a character. -/
def showEnds (n : ℕ) (separator s : String) : Option String :=
  let bytes := asBytes s
  match fromUtf8 (bytes.take n), fromUtf8 (bytes.drop (bytes.length - n)) with
  | some front, some back => some (front ++ separator ++ back)
  | _, _ => none

/-- A label: the ends of a text of more than `limit` bytes, and a shorter one as it is. -/
def shorten (limit n : ℕ) (separator s : String) : Option String :=
  if (asBytes s).length ≤ limit then some s else showEnds n separator s

/-- No character of a text of more than `limit` bytes lies across the end of its first `n` bytes or
the start of its last `n` bytes. -/
def EndsCuttable (limit n : ℕ) (s : String) : Prop :=
  limit < (asBytes s).length → CharBoundary s n ∧ CharBoundary s ((asBytes s).length - n)

variable {s : String}

/-! ## Slices -/

/-- The bytes of a text are as many as its encoding takes. -/
theorem length_asBytes (s : String) : (asBytes s).length = s.utf8ByteSize := by
  rw [asBytes, Array.length_toList]
  rfl

/-- Character boundaries are the valid positions of a text. -/
theorem charBoundary_iff_isValid {n : ℕ} :
    CharBoundary s n ↔ String.Pos.Raw.IsValid s ⟨n⟩ := by
  rw [String.Pos.Raw.isValid_iff_exists_append]
  simp only [CharBoundary, length_asBytes, String.Pos.Raw.ext_iff, String.byteIdx_rawEndPos,
    eq_comm]

/-- What decodes is what is valid. -/
theorem exists_fromUtf8_iff {b : Bytes} :
    (∃ t, fromUtf8 b = some t) ↔ ByteArray.IsValidUTF8 ⟨b.toArray⟩ := by
  rw [fromUtf8, String.fromUTF8?]
  split
  next hvalid => exact iff_of_true ⟨_, rfl⟩ hvalid
  next hnot =>
    refine iff_of_false ?_ hnot
    rintro ⟨t, ht⟩
    cases ht

/-- A slice of the bytes, as an array. -/
theorem mk_slice_asBytes (s : String) (start stop : ℕ) :
    (⟨(((asBytes s).drop start).take (stop - start)).toArray⟩ : ByteArray) =
      s.toByteArray.extract start stop := by
  rw [ByteArray.ext_iff, ByteArray.data_extract, ← Array.toList_inj, Array.toList_extract,
    List.extract_eq_take_drop]
  rfl

/-- The first bytes of a text are a text if and only if no character is cut. -/
theorem exists_fromUtf8_take {n : ℕ} (hn : n ≤ (asBytes s).length) :
    (∃ t, fromUtf8 ((asBytes s).take n) = some t) ↔ CharBoundary s n := by
  have hslice := mk_slice_asBytes s 0 n
  rw [List.drop_zero, Nat.sub_zero] at hslice
  rw [exists_fromUtf8_iff, charBoundary_iff_isValid, hslice,
    String.Pos.Raw.isValid_iff_isValidUTF8_extract_zero, and_iff_right]
  rwa [length_asBytes] at hn

/-- The last bytes of a text are a text if and only if no character is cut. -/
theorem exists_fromUtf8_drop {n : ℕ} (hn : n ≤ (asBytes s).length) :
    (∃ t, fromUtf8 ((asBytes s).drop n) = some t) ↔ CharBoundary s n := by
  have hslice := mk_slice_asBytes s n s.utf8ByteSize
  rw [List.take_of_length_le (by rw [List.length_drop, length_asBytes])] at hslice
  rw [exists_fromUtf8_iff, charBoundary_iff_isValid, hslice,
    String.Pos.Raw.isValid_iff_isValidUTF8_extract_utf8ByteSize, and_iff_right]
  rwa [length_asBytes] at hn

/-- An ASCII text can be cut anywhere. -/
theorem charBoundary_of_ascii {n : ℕ} (hascii : ∀ c ∈ s.toList, c.toNat < 128)
    (hn : n ≤ (asBytes s).length) : CharBoundary s n := by
  obtain ⟨l, rfl⟩ := s.exists_eq_ofList
  rw [String.toList_ofList] at hascii
  rw [asBytes_ofList_ascii hascii, List.length_map] at hn
  refine ⟨String.ofList (l.take n), String.ofList (l.drop n), ?_, ?_⟩
  · rw [← String.ofList_append, List.take_append_drop]
  · rw [asBytes_ofList_ascii fun c hc => hascii c (List.mem_of_mem_take hc), List.length_map,
      List.length_take_of_le hn]

/-- A label can be cut if both cuts fall between characters. -/
theorem exists_showEnds_iff {n : ℕ} {separator : String} (hn : n ≤ (asBytes s).length) :
    (∃ label, showEnds n separator s = some label) ↔
      CharBoundary s n ∧ CharBoundary s ((asBytes s).length - n) := by
  rw [← exists_fromUtf8_take hn, ← exists_fromUtf8_drop (Nat.sub_le _ _), showEnds]
  cases fromUtf8 ((asBytes s).take n) <;>
    cases fromUtf8 ((asBytes s).drop ((asBytes s).length - n)) <;> simp

/-- A long text must not have a character across one of the two cuts. -/
theorem exists_shorten_iff {limit n : ℕ} {separator : String} (hn : n ≤ limit) :
    (∃ label, shorten limit n separator s = some label) ↔ EndsCuttable limit n s := by
  rw [shorten, EndsCuttable]
  split
  next hshort => exact iff_of_true ⟨s, rfl⟩ fun hlong => absurd hshort (not_le.mpr hlong)
  next hlong =>
    rw [imp_iff_right (not_le.mp hlong)]
    exact exists_showEnds_iff (by omega)

/-! ## Letters, whitespace and digits -/

/-- The characters are folded one by one. -/
@[simp]
theorem toList_toAsciiLowercase (s : String) :
    (toAsciiLowercase s).toList = s.toList.map Char.toLower := String.toList_ofList

/-- Folding changes the capital letters of ASCII only. -/
theorem toLower_eq_self_iff {c : Char} : c.toLower = c ↔ ¬ ('A' ≤ c ∧ c ≤ 'Z') := by
  delta Char.toLower
  split
  next hupper =>
    refine iff_of_false (fun heq => ?_) (not_not_intro hupper)
    have hval : c.val + ('a'.val - 'A'.val) = c.val := congrArg Char.val heq
    simp at hval
  next hother => exact iff_of_true rfl hother

/-- A text is in lower case if and only if it has no capital letters of ASCII. -/
theorem toAsciiLowercase_eq_self_iff :
    toAsciiLowercase s = s ↔ ∀ c ∈ s.toList, ¬ ('A' ≤ c ∧ c ≤ 'Z') := by
  rw [← String.toList_inj, toList_toAsciiLowercase]
  conv_lhs =>
    rhs
    rw [← List.map_id s.toList]
  rw [List.map_inj_left]
  simp only [id, toLower_eq_self_iff]

/-- There are no capital letters beyond ASCII. -/
theorem toLower_of_le {c : Char} (h : 128 ≤ c.toNat) : c.toLower = c := by
  refine toLower_eq_self_iff.mpr ?_
  rintro ⟨-, hupper⟩
  rw [Char.le_def, UInt32.le_iff_toNat_le] at hupper
  exact absurd (hupper.trans_lt (by decide : 'Z'.val.toNat < 128)) (not_lt.mpr h)

/-- Letters in lower case are no whitespace, and everything else stays as it is. -/
theorem isWhitespace_toLower (c : Char) : isWhitespace c.toLower = isWhitespace c := by
  have htable : ∀ n < 128, isWhitespace (Char.ofNat n).toLower = isWhitespace (Char.ofNat n) := by
    decide
  by_cases hascii : c.toNat < 128
  · simpa only [Char.ofNat_toNat] using htable c.toNat hascii
  · rw [toLower_of_le (not_lt.mp hascii)]

/-- Two texts are folded each for itself. -/
theorem toAsciiLowercase_append (s t : String) :
    toAsciiLowercase (s ++ t) = toAsciiLowercase s ++ toAsciiLowercase t := by
  rw [← String.toList_inj]
  simp

/-- Folding makes no white space. -/
theorem noWhitespace_toAsciiLowercase (h : NoWhitespace s) : NoWhitespace (toAsciiLowercase s) := by
  intro c hc
  rw [toList_toAsciiLowercase] at hc
  obtain ⟨c', hc', rfl⟩ := List.mem_map.mp hc
  rw [isWhitespace_toLower, h c' hc']

/-- There is no white space to drop at the end. -/
theorem rdropWhile_isWhitespace {l : List Char}
    (hlast : ∀ c ∈ l.getLast?, isWhitespace c = false) : l.rdropWhile isWhitespace = l := by
  refine List.rdropWhile_eq_self_iff.mpr fun hne => ?_
  rw [hlast _ (List.getLast?_eq_some_getLast hne)]
  exact Bool.false_ne_true

/-- A text that does not end in white space stays as it is. -/
theorem trimEnd_eq_self (hlast : ∀ c ∈ s.toList.getLast?, isWhitespace c = false) :
    trimEnd s = s := by
  rw [trimEnd, rdropWhile_isWhitespace hlast, String.ofList_toList]

/-- Whitespace around a text is cut off. -/
theorem trim_of_append {front back : List Char} {t : String}
    (hfront : ∀ c ∈ front, isWhitespace c = true) (hback : ∀ c ∈ back, isWhitespace c = true)
    (hhead : ∀ c ∈ t.toList.head?, isWhitespace c = false)
    (hlast : ∀ c ∈ t.toList.getLast?, isWhitespace c = false)
    (hs : s.toList = front ++ (t.toList ++ back)) : trim s = t := by
  rw [trim, hs, List.dropWhile_append_of_pos hfront]
  cases ht : t.toList with
  -- only whitespace: all of it goes at the front
  | nil =>
    have hall : back.dropWhile isWhitespace = [] := List.dropWhile_eq_nil_iff.mpr hback
    rw [List.nil_append, hall, List.rdropWhile_nil, ← ht, String.ofList_toList]
  | cons c cs =>
    have hc : isWhitespace c = false := hhead c (by rw [ht]; rfl)
    have hkept : (c :: cs).rdropWhile isWhitespace = c :: cs := rdropWhile_isWhitespace (ht ▸ hlast)
    rw [List.cons_append, List.dropWhile_cons_of_neg (by rw [hc]; exact Bool.false_ne_true),
      ← List.cons_append, List.rdropWhile, List.reverse_append,
      List.dropWhile_append_of_pos fun c' hc' => hback c' (List.mem_reverse.mp hc'),
      ← List.rdropWhile, hkept, ← ht, String.ofList_toList]

/-- A text that neither starts nor ends with whitespace is not trimmed. -/
theorem trim_eq_self (hhead : ∀ c ∈ s.toList.head?, isWhitespace c = false)
    (hlast : ∀ c ∈ s.toList.getLast?, isWhitespace c = false) : trim s = s :=
  @trim_of_append s [] [] s (List.forall_mem_nil _) (List.forall_mem_nil _) hhead hlast
    (List.append_nil _).symm

/-- What is cut off around a text is whitespace, and what is left neither starts nor ends with
it. -/
theorem exists_eq_append_trim (s : String) : ∃ front back : List Char,
    (∀ c ∈ front, isWhitespace c = true) ∧ (∀ c ∈ back, isWhitespace c = true) ∧
    s.toList = front ++ ((trim s).toList ++ back) := by
  refine ⟨s.toList.takeWhile isWhitespace,
    (s.toList.dropWhile isWhitespace).rtakeWhile isWhitespace, ?_, ?_, ?_⟩
  · exact fun c hc => List.mem_takeWhile_imp hc
  · exact fun c hc => List.mem_rtakeWhile_imp hc
  · rw [trim, String.toList_ofList, List.rdropWhile_append_rtakeWhile,
      List.takeWhile_append_dropWhile]

/-- A trimmed text does not begin with white space. -/
theorem head?_trim (s : String) : ∀ c ∈ (trim s).toList.head?, isWhitespace c = false := by
  intro c hc
  rw [trim, String.toList_ofList] at hc
  -- the front of what is left is the front of what is left after the first cut
  have hfront : (s.toList.dropWhile isWhitespace).head? = some c :=
    List.head?_eq_some_iff.mpr ?_
  · have hnot := List.head?_dropWhile_not isWhitespace s.toList
    rw [hfront] at hnot
    exact hnot
  · obtain ⟨cs, hcs⟩ := List.head?_eq_some_iff.mp hc
    obtain ⟨rest, hrest⟩ := List.rdropWhile_prefix isWhitespace (s.toList.dropWhile isWhitespace)
    exact ⟨cs ++ rest, by rw [← hrest, hcs]; rfl⟩

/-- A trimmed text does not end in white space. -/
theorem getLast?_trim (s : String) : ∀ c ∈ (trim s).toList.getLast?, isWhitespace c = false := by
  intro c hc
  rw [trim, String.toList_ofList] at hc
  have hne : (s.toList.dropWhile isWhitespace).rdropWhile isWhitespace ≠ [] := by
    rintro heq
    rw [heq] at hc
    cases hc
  rw [List.getLast?_eq_some_getLast hne] at hc
  obtain rfl := Option.some.inj hc
  exact eq_false_of_ne_true (List.rdropWhile_last_not _ _ hne)

/-- To trim twice is to trim once. -/
theorem trim_trim (s : String) : trim (trim s) = trim s :=
  trim_eq_self (head?_trim s) (getLast?_trim s)

/-- What follows a prefix. -/
theorem exists_of_startsWith {front : String} (h : startsWith s front = true) :
    ∃ rest : String, s.toList = front.toList ++ rest.toList := by
  obtain ⟨l, hl⟩ := List.isPrefixOf_iff_prefix.mp h
  exact ⟨String.ofList l, by rw [String.toList_ofList, hl]⟩

/-- A prefix is stripped from the texts that start with it. -/
theorem stripPrefix_eq_some_iff {front rest : String} :
    stripPrefix s front = some rest ↔ s.toList = front.toList ++ rest.toList := by
  rw [stripPrefix, startsWith]
  split
  next hfront =>
    obtain ⟨l, hl⟩ := List.isPrefixOf_iff_prefix.mp hfront
    rw [Option.some_inj, ← hl, List.drop_left, List.append_cancel_left_eq, ← String.toList_inj,
      String.toList_ofList]
  next hfront =>
    refine iff_of_false (fun h => by cases h) fun heq => hfront ?_
    exact List.isPrefixOf_iff_prefix.mpr ⟨rest.toList, heq.symm⟩

/-- What comes before the first separator. -/
theorem takeWhile_ne_append_cons {c : Char} {l : List Char} (h : c ∉ l) (l' : List Char) :
    (l ++ c :: l').takeWhile (· ≠ c) = l := by
  rw [List.takeWhile_append_of_pos, List.takeWhile_cons_of_neg, List.append_nil]
  · simp
  · exact fun c' hc' => decide_eq_true fun heq => h (heq ▸ hc')

/-- The first separator splits a text. -/
theorem splitn2_append {sep : Char} {front rest : String} (hfront : sep ∉ front.toList)
    (hs : s.toList = front.toList ++ sep :: rest.toList) :
    splitn2 sep s = (front, some rest) := by
  have hmem : sep ∈ s.toList := hs ▸ List.mem_append_right _ List.mem_cons_self
  rw [splitn2, if_pos hmem, hs, takeWhile_ne_append_cons hfront, ← List.drop_drop, List.drop_left]
  simp

/-- What a text is split into, with the separator, is the text. -/
theorem eq_append_of_splitn2 {sep : Char} {front rest : String}
    (h : splitn2 sep s = (front, some rest)) :
    s.toList = front.toList ++ sep :: rest.toList := by
  obtain ⟨rfl, hrest⟩ := Prod.mk.inj h
  split at hrest
  next hmem =>
    obtain rfl := Option.some.inj hrest
    obtain ⟨l, l', hs, hl⟩ := List.eq_append_cons_of_mem hmem
    rw [String.toList_ofList, String.toList_ofList, hs, takeWhile_ne_append_cons hl,
      ← List.drop_drop, List.drop_left]
    rfl
  next => cases hrest

/-- The codes of the digits. -/
theorem toNat_of_isDigit {c : Char} (h : c.isDigit = true) : 48 ≤ c.toNat ∧ c.toNat ≤ 57 := by
  simp only [Char.isDigit, ge_iff_le, Bool.and_eq_true, decide_eq_true_eq,
    UInt32.le_iff_toNat_le] at h
  exact h

/-- Digits are no whitespace. -/
theorem isWhitespace_of_isDigit {c : Char} (h : c.isDigit = true) : isWhitespace c = false := by
  have hrange := toNat_of_isDigit h
  simp only [isWhitespace, Bool.or_eq_false_iff, Bool.and_eq_false_iff, decide_eq_false_iff_not]
  omega

/-- A number is read back from its digits. -/
theorem parseUnsigned_toString {n bound : ℕ} (h : n < bound) :
    parseUnsigned bound (toString n) = some n := by
  have hdigits : (toString n).toList = Nat.toDigits 10 n := Nat.toList_repr
  have hdigit : ∀ c ∈ Nat.toDigits 10 n, c.isDigit = true := fun c hc =>
    Nat.isDigit_of_mem_toDigits (by decide) le_rfl hc
  have hsign : (match Nat.toDigits 10 n with
      | '+' :: rest => rest
      | cs => cs) = Nat.toDigits 10 n := by
    split
    next rest heq =>
      have hplus := hdigit '+' (heq ▸ List.mem_cons_self)
      exact absurd hplus (by decide)
    next => rfl
  rw [parseUnsigned, hdigits]
  dsimp only
  rw [hsign, if_neg, Nat.ofDigitChars_ten_toDigits, if_pos h]
  rw [not_or, not_not, List.all_eq_true]
  exact ⟨Nat.toDigits_ne_nil, hdigit⟩

end ChronoShift
