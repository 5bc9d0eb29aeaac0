import FlinkExplorer.Flink.Keys
import FlinkExplorer.Parser.BigInteger
import FlinkExplorer.Parser.IsoMillis
import FlinkExplorer.Parser.JsonRead

namespace FlinkExplorer

open Lib Lib.Read

/-!
# Keys typed back

A key is looked up by the text it is shown as.  `JavaKey.IsKeyOf` says which keys a type has,
`JavaKey.shown` what the decoder makes of their bytes.

* `parse_renderKey` — the text of a key that is no float is parsed to a key with its bytes and its
  hash, by induction over the tuples in it;
* `parseFloatKey_text`, `parseDoubleKey_text` — so is a float's, by its number or by its bytes;
* `typed_keys_parse` — every key is found again by its text.
-/

/-! ### Texts of scalars -/

section Scalars

/-- No character of a number is white space. -/
theorem isWhitespace_of_isNumberChar {c : Char} (h : isNumberChar c = true) :
    isWhitespace c = false := by
  simp only [isNumberChar, Bool.or_eq_true, beq_iff_eq] at h
  rcases h with ((((hd | rfl) | rfl) | rfl) | rfl) | rfl
  · exact isWhitespace_of_digit_or_minus (.inl hd)
  all_goals decide

/-- A number has no white space around it. -/
theorem trim_number {t : Text} (h : ∀ c ∈ t, isNumberChar c = true) : trim t = t :=
  trim_eq_self (fun c hc => isWhitespace_of_isNumberChar (h c (List.mem_of_mem_head? hc)))
    (fun c hc => isWhitespace_of_isNumberChar (h c (List.mem_of_mem_getLast? hc)))

/-- A number has no space around it. -/
theorem trim_intText (v : Int) : trim (intText v) = intText v :=
  trim_number fun _ => isNumberChar_of_mem_intText

/-- An integer in range is read back from its text. -/
theorem parseSigned_intText {lo hi v : Int} (hlo : lo ≤ v) (hhi : v ≤ hi) :
    parseSigned lo hi (trim (intText v)) = some v := by
  rw [trim_intText, ← padInt_zero]
  exact parseSigned_padInt 0 hlo hhi

theorem parseI64_toInt (v : Int64) : parseI64 (trim (intText v.toInt)) = some v := by
  have hlo := v.le_toInt
  have hhi := v.toInt_lt
  rw [parseI64, parseSigned_intText hlo (by omega), Option.map_some, Int64.ofInt_toInt]

theorem parseI32_toInt (v : Int32) : parseI32 (trim (intText v.toInt)) = some v := by
  have hlo := v.le_toInt
  have hhi := v.toInt_lt
  rw [parseI32, parseSigned_intText hlo (by omega), Option.map_some, Int32.ofInt_toInt]

theorem parseI16_toInt (v : Int16) : parseI16 (trim (intText v.toInt)) = some v := by
  have hlo := v.le_toInt
  have hhi := v.toInt_lt
  rw [parseI16, parseSigned_intText hlo (by omega), Option.map_some, Int16.ofInt_toInt]

theorem parseI8_toInt (v : Int8) : parseI8 (trim (intText v.toInt)) = some v := by
  have hlo := v.le_toInt
  have hhi := v.toInt_lt
  rw [parseI8, parseSigned_intText hlo (by omega), Option.map_some, Int8.ofInt_toInt]

/-- A padded number is read back. -/
theorem parseU8_padNat (w : Nat) (v : UInt8) : parseU8 (padNat w v.toNat) = some v := by
  have hlt := v.toNat_lt
  have hdigits := parseDigits_padNat w v.toNat
  have hparse : parseUnsigned 255 (padNat w v.toNat) = some v.toNat := by
    unfold parseUnsigned
    split
    · rename_i ds htext
      have hplus : ('+' : Char) ∈ padNat w v.toNat := htext ▸ List.mem_cons_self
      exact absurd (isDigit_of_mem_padNat hplus) (by decide)
    · rw [hdigits]
      simp [show v.toNat ≤ 255 by omega]
  rw [parseU8, hparse, Option.map_some, UInt8.ofNat_toNat]

/-- A date is made of digits and dashes. -/
theorem isNumberChar_of_mem_dateText {year : Int32} {month day : UInt8} {c : Char}
    (h : c ∈ dateText year month day) : isNumberChar c = true := by
  have hdigit {c : Char} (hc : c.isDigit = true) : isNumberChar c = true := by
    simp [isNumberChar, hc]
  unfold dateText at h
  simp only [List.mem_append, List.mem_cons] at h
  rcases h with ((hy | rfl | hm) | rfl | hd)
  · rcases digit_or_minus_of_mem_padInt hy with hc | rfl
    · exact hdigit hc
    · decide
  · decide
  · exact hdigit (isDigit_of_mem_padNat hm)
  · decide
  · exact hdigit (isDigit_of_mem_padNat hd)

/-- **A date** is read back from its text. -/
theorem parseLocalDate_dateText (year : Int32) (month day : UInt8) :
    parseLocalDate (dateText year month day) = some (year, month, day) := by
  have hlo := year.le_toInt
  have hhi := year.toInt_lt
  have htrim : trim (dateText year month day) = dateText year month day :=
    trim_number fun _ => isNumberChar_of_mem_dateText
  have hsplit : splitDate (dateText year month day)
      = some (padInt 4 year.toInt, padNat 2 month.toNat, padNat 2 day.toNat) :=
    splitDate_append _ (minus_not_mem_padNat 2 _) (minus_not_mem_padNat 2 _)
  have hyear : parseI32 (padInt 4 year.toInt) = some year := by
    rw [parseI32, parseSigned_padInt 4 hlo (by omega), Option.map_some, Int32.ofInt_toInt]
  unfold parseLocalDate
  simp only [htrim, hsplit, hyear, parseU8_padNat, Option.bind_eq_bind, Option.bind_some,
    ↓reduceIte]

/-- The text of a character key. -/
def charText (unit : UInt16) : Text :=
  if isSurrogate unit then '\\' :: 'u' :: hexUnit unit else [Char.ofNat unit.toNat]

theorem charValue_eq (unit : UInt16) : charValue unit = .string (charText unit) := by
  unfold charValue charText
  split <;> rfl

/-- No digit is a sign. -/
theorem hexDigitUpper_ne_plus {n : Nat} (h : n < 16) : hexDigitUpper n ≠ '+' := by
  intro heq
  have hhex := (hexDigitUpper_spec h).1
  rw [heq] at hhex
  exact absurd hhex (by decide)

/-- The four digits of a unit are read back. -/
theorem parseHex_hexUnit (unit : UInt16) : parseHex (hexUnit unit) = some unit.toNat := by
  have hu := unit.toNat_lt
  have h₁ := hexDigitUpper_spec (show unit.toNat / 4096 < 16 by omega)
  have h₂ := hexDigitUpper_spec (show unit.toNat / 256 % 16 < 16 by omega)
  have h₃ := hexDigitUpper_spec (show unit.toNat / 16 % 16 < 16 by omega)
  have h₄ := hexDigitUpper_spec (show unit.toNat % 16 < 16 by omega)
  unfold parseHex hexUnit
  split
  · rename_i ds heq
    exact absurd (List.cons.inj heq).1 (hexDigitUpper_ne_plus (by omega))
  · simp only [ne_eq, reduceCtorEq, not_false_eq_true, List.all_cons, List.all_nil, h₁.1, h₂.1,
      h₃.1, h₄.1, Bool.and_self, and_self, ↓reduceIte, List.foldl_cons, List.foldl_nil, h₁.2, h₂.2,
      h₃.2, h₄.2, Option.some.injEq]
    omega

/-- **A unit** is read back from its text, a surrogate by its number. -/
theorem parseChar_charText (unit : UInt16) : parseChar (charText unit) = some unit := by
  unfold charText
  by_cases hunit : isSurrogate unit = true
  · have hlen : (hexUnit unit).length = 4 := rfl
    rw [if_pos hunit, show ('\\' :: 'u' :: hexUnit unit : Text) = ['\\', 'u'] ++ hexUnit unit from rfl]
    unfold parseChar
    split
    · next heq => cases heq
    · rw [stripPrefix_append]
      simp only [Option.bind_eq_bind, Option.bind_some, hlen, ↓reduceIte, parseHex_hexUnit,
        Option.map_some, UInt16.ofNat_toNat]
  · have hlt := unit.toNat_lt
    have hvalid : unit.toNat.isValidChar := by
      simp only [isSurrogate, Bool.and_eq_true, decide_eq_true_eq, not_and, not_le] at hunit
      unfold Nat.isValidChar
      omega
    rw [if_neg hunit, parseChar, toNat_charOfNat hvalid, if_pos (by omega), UInt16.ofNat_toNat]

/-- Two digits are a byte. -/
theorem parseHex_pair {m n : Nat} (hm : m < 16) (hn : n < 16) :
    parseHex [hexDigit m, hexDigit n] = some (m * 16 + n) := by
  have h₁ := hexDigit_spec hm
  have h₂ := hexDigit_spec hn
  unfold parseHex
  split
  · rename_i ds heq
    have hplus : hexDigit m = '+' := (List.cons.inj heq).1
    rw [hplus] at h₁
    exact absurd h₁.1 (by decide)
  · simp only [ne_eq, reduceCtorEq, not_false_eq_true, List.all_cons, List.all_nil, h₁.1, h₂.1,
      Bool.and_self, and_self, ↓reduceIte, List.foldl_cons, List.foldl_nil, h₁.2, h₂.2,
      Nat.zero_mul, Nat.zero_add]

/-- **Bytes** are read back from their digits. -/
theorem hexPairs_flatMap (bs : Bytes) : hexPairs (bs.flatMap hexByte) = some bs := by
  induction bs with
  | nil => rfl
  | cons b bs ih =>
    have hb := b.toNat_lt
    have hvalue : b.toNat / 16 * 16 + b.toNat % 16 = b.toNat := by omega
    rw [List.flatMap_cons, hexByte, List.cons_append, List.cons_append, List.nil_append, hexPairs,
      parseHex_pair (by omega) (by omega), ih, hvalue]
    simp

/-- No digit is white space. -/
theorem isWhitespace_of_isHexDigit {c : Char} (h : isHexDigit c = true) :
    isWhitespace c = false := by
  simp only [isHexDigit, Bool.or_eq_true, Bool.and_eq_true, decide_eq_true_eq] at h
  simp only [isWhitespace, Bool.or_eq_false_iff, Bool.and_eq_false_iff, decide_eq_false_iff_not,
    beq_eq_false_iff_ne]
  omega

/-- A key shown by its bytes is read as them. -/
theorem hexBytes_opaqueKey (bs : Bytes) : hexBytes bs.length (opaqueKey bs) = some bs := by
  have hlen : (bs.flatMap hexByte).length = bs.length * 2 := by
    induction bs with
    | nil => rfl
    | cons b bs ih =>
      rw [List.flatMap_cons, List.length_append, ih, List.length_cons]
      have hb : (hexByte b).length = 2 := rfl
      omega
  have hblank {c : Char} (hc : c ∈ opaqueKey bs) : isWhitespace c = false := by
    rw [opaqueKey, List.mem_cons, List.mem_cons, List.mem_flatMap] at hc
    rcases hc with rfl | rfl | ⟨b, -, hc⟩
    · decide
    · decide
    · have hb := b.toNat_lt
      simp only [hexByte, List.mem_cons, List.not_mem_nil, or_false] at hc
      rcases hc with rfl | rfl
      · exact isWhitespace_of_isHexDigit (hexDigit_spec (by omega)).1
      · exact isWhitespace_of_isHexDigit (hexDigit_spec (by omega)).1
  have htrim : trim (opaqueKey bs) = opaqueKey bs :=
    trim_eq_self (fun c hc => hblank (List.mem_of_mem_head? hc))
      (fun c hc => hblank (List.mem_of_mem_getLast? hc))
  rw [hexBytes, htrim, show opaqueKey bs = ['0', 'x'] ++ bs.flatMap hexByte from rfl,
    stripPrefix_append]
  simp only [Option.bind_eq_bind, Option.bind_some, hlen, ↓reduceIte, hexPairs_flatMap]

/-- A magnitude without leading zeros, least significant word first. -/
theorem topNonzero_reverse {magnitude : List UInt32} (htop : magnitude.head? ≠ some 0) :
    TopNonzero magnitude.reverse := by
  intro w hw
  rw [List.getLast?_reverse] at hw
  rintro rfl
  exact htop hw

/-- Such a magnitude is no zero. -/
theorem wordsValue_pos {magnitude : List UInt32} (htop : magnitude.head? ≠ some 0)
    (hne : magnitude ≠ []) : 0 < wordsValue magnitude.reverse := by
  by_contra hzero
  have hdigits := digits_wordsValue (topNonzero_reverse htop)
  rw [Nat.eq_zero_of_not_pos hzero, Nat.digits_zero] at hdigits
  exact hne (List.reverse_eq_nil_iff.mp (List.map_eq_nil_iff.mp hdigits.symm))

/-- The integer of a key. -/
theorem parseDecimal_signedValue {negative : Bool} {magnitude : List UInt32}
    (htop : magnitude.head? ≠ some 0) (hneg : negative = true → magnitude ≠ []) :
    parseDecimal (intText (signedValue negative magnitude.reverse)) = some (negative, magnitude) := by
  have htop' := topNonzero_reverse htop
  obtain ⟨ws, hws, hval, hparse⟩ := parseDecimal_intText (signedValue negative magnitude.reverse)
  have habs : (signedValue negative magnitude.reverse).natAbs = wordsValue magnitude.reverse := by
    unfold signedValue
    split <;> omega
  have hwords : ws = magnitude.reverse := by
    have hdigits := digits_wordsValue hws
    rw [hval, habs, digits_wordsValue htop'] at hdigits
    exact (List.map_injective_iff.mpr (fun _ _ => UInt32.toNat_inj.mp) hdigits).symm
  have hsign : decide (signedValue negative magnitude.reverse < 0) = negative := by
    unfold signedValue
    cases negative with
    | false => exact decide_eq_false (by simp)
    | true =>
      have hpos := wordsValue_pos htop (hneg rfl)
      exact decide_eq_true (by simp; omega)
  rw [hparse, hsign, hwords, List.reverse_reverse]

/-- The bytes of an integer are read as its text. -/
theorem reads_bigInteger {negative : Bool} {magnitude : List UInt32}
    (hneg : negative = true → 0 < wordsValue magnitude.reverse)
    (hlen : (bigIntegerToByteArray negative magnitude).length ≤ maxBigIntegerBytes) :
    Reads readBigInteger (JavaKey.bigInteger negative magnitude).serialize
      (some (intText (signedValue negative magnitude.reverse))) := by
  have hval := beInt_bigIntegerToByteArray negative hneg
  rw [List.reverse_reverse] at hval
  have hne := bigIntegerToByteArray_ne_nil negative magnitude
  rw [JavaKey.serialize]
  generalize bigIntegerToByteArray negative magnitude = bs at hlen hval hne
  have hpos : 0 < bs.length := List.length_pos_iff.mpr hne
  have hmax : maxBigIntegerBytes + 4 < 2 ^ 31 := by decide
  have hbytes := reads_ok (reads_readBytes (n := bs.length) rfl)
  have htoInt := toInt_ofNat_length (n := bs.length + 4) (by omega)
  have hsub : (Int32.ofNat (bs.length + 4)).toInt.toNat - 4 = bs.length := by omega
  unfold readBigInteger
  refine (reads_readLength (bs.length + 4)).bind ?_
  rw [if_neg (by omega), if_neg (by omega), if_neg (by omega), if_neg (by omega), hsub,
    if_pos ⟨by omega, hlen⟩]
  refine hbytes.bind_nil ?_
  rw [twosComplementToDecimal_eq, hval]
  exact Reads.pure _

end Scalars

/-! ### Keys of a type -/

/-- Whether a key is a floating point number. -/
def JavaKey.isFloating : JavaKey → Bool
  | .float _ | .double _ => true
  | _ => false

mutual

/-- Whether a key is one of a type.  A Java string has an `int` length; the words of a `BigInteger`
    have no zeros in front, and its bytes are within the decoder's limit; a tuple has no fields that
    are floats. -/
def JavaKey.IsKeyOf : JavaKey → Text → Prop
  | .string s, t => t = "String".toList ∧ (encodeUtf16 s).length + 1 < 2 ^ 32
  | .utf16 units, t => t = "String".toList ∧ units.length + 1 < 2 ^ 32
  | .long _, t => t = "Long".toList
  | .int _, t => t = "Int".toList
  | .short _, t => t = "Short".toList
  | .byte _, t => t = "Byte".toList
  | .char _, t => t = "Char".toList
  | .boolean _, t => t = "Boolean".toList
  | .float _, t => t = "Float".toList
  | .double _, t => t = "Double".toList
  | .bigInteger negative magnitude, t => t = "BigInteger".toList ∧ magnitude.head? ≠ some 0
    ∧ (negative = true → magnitude ≠ [])
    ∧ (bigIntegerToByteArray negative magnitude).length ≤ maxBigIntegerBytes
  | .tuple fields, t =>
    ∃ inner, typeArgs "Tuple<".toList t = some inner ∧ FieldsAreKeysOf fields (splitTopLevel inner)
  | .localDate _ _ _, t => t = "LocalDate".toList
  | .date _, _ => False

/-- The fields of a tuple are keys of its types, and none of them is a float. -/
def FieldsAreKeysOf : List JavaKey → List Text → Prop
  | [], [] => True
  | k :: ks, t :: ts => k.isFloating = false ∧ k.IsKeyOf (trim t) ∧ FieldsAreKeysOf ks ts
  | _, _ => False

end

mutual

/-- How deep the tuples of a key are nested. -/
def JavaKey.depth : JavaKey → Nat
  | .tuple fields => fieldsDepth fields + 1
  | _ => 0

/-- How deep the fields of a tuple nest. -/
def fieldsDepth : List JavaKey → Nat
  | [] => 0
  | k :: ks => max k.depth (fieldsDepth ks)

end

mutual

/-- What the decoder makes of a key's bytes. -/
def JavaKey.shown (F : FloatText) : JavaKey → Json
  | .string s => .string (keyString (encodeUtf16 s))
  | .utf16 units => .string (keyString units)
  | .long v => .int v.toInt
  | .int v => .int v.toInt
  | .short v => .int v.toInt
  | .byte v => .int v.toInt
  | .char unit => charValue unit
  | .boolean v => .bool v
  | .float bits => .float (F.fromF32 (javaFloatBits bits).toUInt32)
  | .double bits => .float (F.fromF64 (javaDoubleBits bits).toUInt64)
  | .bigInteger negative magnitude =>
    .string (intText (signedValue negative magnitude.reverse))
  | .tuple fields => .array (fieldsShown F fields)
  | .localDate year month day => .string (dateText year month day)
  | .date millis => .string (millisToIso millis.toInt)

/-- The fields of a tuple as JSON. -/
def fieldsShown (F : FloatText) : List JavaKey → List Json
  | [] => []
  | k :: ks => k.shown F :: fieldsShown F ks

end

/-- Two keys that are hashed and stored alike. -/
structure JavaKey.Alike (k k' : JavaKey) : Prop where
  hash_eq : k'.hashCode = k.hashCode
  bytes_eq : k'.serialize = k.serialize

theorem JavaKey.Alike.refl (k : JavaKey) : k.Alike k := ⟨rfl, rfl⟩

/-! ### Reading a key -/

section Read

variable {F : FloatText}

/-- A string key is read back from its units. -/
theorem reads_keyString {units : List UInt16} (h : units.length + 1 < 2 ^ 32) (depth : Nat) :
    Reads (decodeKeyFieldFuel F (depth + 1) "String".toList) (writeUtf16Value units)
      (.string (keyString units)) := by
  have hlen : ∀ us, some units = some us → us.length + 1 < 2 ^ 32 := by
    intro us hus
    obtain rfl := Option.some.inj hus
    exact h
  have hread : Reads decodeKeyString (writeNullableString (some units)) (.string (keyString units)) :=
    ((reads_readNullableStringUnits hlen).mapError _).bind_nil (Reads.pure _)
  exact decodeKeyFieldFuel_string (F := F) depth ▸ hread

/-- A `BigInteger` key is read back from its bytes. -/
theorem reads_keyBigInteger {negative : Bool} {magnitude : List UInt32} {t : Text}
    (hk : (JavaKey.bigInteger negative magnitude).IsKeyOf t) (depth : Nat) :
    Reads (decodeKeyFieldFuel F (depth + 1) t) (JavaKey.bigInteger negative magnitude).serialize
      ((JavaKey.bigInteger negative magnitude).shown F) := by
  rw [JavaKey.IsKeyOf] at hk
  obtain ⟨rfl, htop, hneg, hlen⟩ := hk
  have hread := reads_bigInteger (fun h => wordsValue_pos htop (hneg h)) hlen
  have hscalar := decodeKeyFieldFuel_scalar (F := F) depth (s := .bigInteger) (by decide)
  have hvalue : Reads (readScalar F .bigInteger) (JavaKey.bigInteger negative magnitude).serialize
      ((JavaKey.bigInteger negative magnitude).shown F) := hread.bind_nil (Reads.pure _)
  rw [show "BigInteger".toList = Scalar.bigInteger.name from rfl, hscalar]
  exact hvalue.mapError _

mutual

/-- **A key's bytes are read**, to what it is shown as. -/
theorem JavaKey.reads_decodeKeyField (k : JavaKey) (t : Text) (hk : k.IsKeyOf t) (depth : Nat)
    (hdepth : t.length < depth) :
    Reads (decodeKeyFieldFuel F depth t) k.serialize (k.shown F) := by
  obtain ⟨depth, rfl⟩ : ∃ d, depth = d + 1 := ⟨depth - 1, by omega⟩
  match k with
  | .string s =>
    rw [JavaKey.IsKeyOf] at hk
    obtain ⟨rfl, hlen⟩ := hk
    exact reads_keyString hlen depth
  | .utf16 units =>
    rw [JavaKey.IsKeyOf] at hk
    obtain ⟨rfl, hlen⟩ := hk
    exact reads_keyString hlen depth
  | .long v =>
    rw [JavaKey.IsKeyOf] at hk
    exact hk ▸ Scalar.reads_key depth .long v trivial
  | .int v =>
    rw [JavaKey.IsKeyOf] at hk
    exact hk ▸ Scalar.reads_key depth .int v trivial
  | .short v =>
    rw [JavaKey.IsKeyOf] at hk
    exact hk ▸ Scalar.reads_key depth .short v trivial
  | .byte v =>
    rw [JavaKey.IsKeyOf] at hk
    exact hk ▸ Scalar.reads_key depth .byte v trivial
  | .char unit =>
    rw [JavaKey.IsKeyOf] at hk
    exact hk ▸ Scalar.reads_key depth .char unit trivial
  | .boolean v =>
    rw [JavaKey.IsKeyOf] at hk
    exact hk ▸ Scalar.reads_key depth .boolean v trivial
  | .float bits =>
    rw [JavaKey.IsKeyOf] at hk
    exact hk ▸ Scalar.reads_key depth .float (javaFloatBits bits).toUInt32 trivial
  | .double bits =>
    rw [JavaKey.IsKeyOf] at hk
    exact hk ▸ Scalar.reads_key depth .double (javaDoubleBits bits).toUInt64 trivial
  | .bigInteger negative magnitude => exact reads_keyBigInteger hk depth
  | .localDate year month day =>
    rw [JavaKey.IsKeyOf] at hk
    exact hk ▸ Scalar.reads_key depth .localDate ⟨year, month, day⟩ trivial
  | .date millis =>
    rw [JavaKey.IsKeyOf] at hk
    cases hk
  | .tuple fields =>
    rw [JavaKey.IsKeyOf] at hk
    -- the fields are read one level below
    obtain ⟨inner, hargs, hfields⟩ := hk
    rw [decodeKeyFieldFuel_tuple depth hargs, JavaKey.serialize, JavaKey.shown]
    refine reads_decodeKeyFields fields _ hfields depth (fun part hmem => ?_) []
    have := length_trim_lt_of_mem hargs hmem
    omega

/-- The fields of a tuple, after `items`. -/
theorem reads_decodeKeyFields (ks : List JavaKey) (ts : List Text) (hks : FieldsAreKeysOf ks ts)
    (depth : Nat) (hdepth : ∀ t ∈ ts, (trim t).length < depth) (items : List Json) :
    Reads (decodeKeyTuple (decodeKeyFieldFuel F depth) items ts) (serializeAll ks)
      (.array (items ++ fieldsShown F ks)) := by
  match ks, ts with
  | [], [] =>
    rw [fieldsShown, List.append_nil]
    exact Reads.pure _
  | k :: ks, t :: ts =>
    rw [FieldsAreKeysOf] at hks
    obtain ⟨-, hk, hks⟩ := hks
    have hfield := k.reads_decodeKeyField (trim t) hk depth (hdepth t List.mem_cons_self)
    have hrest := reads_decodeKeyFields ks ts hks depth
      (fun u hu => hdepth u (List.mem_cons_of_mem t hu)) (items ++ [k.shown F])
    rw [List.append_assoc, List.singleton_append] at hrest
    exact hfield.bind hrest

end

end Read

/-! ### Parsing the text of a key -/

mutual

/-- A value made of strings, booleans, 64-bit integers and arrays. -/
def Json.IsExact : Json → Prop
  | .string _ | .bool _ => True
  | .number (.int v) => -2 ^ 63 ≤ v ∧ v < 2 ^ 63
  | .array items => AllExact items
  | _ => False

/-- Each of the values reads back as it is. -/
def AllExact : List Json → Prop
  | [] => True
  | v :: vs => v.IsExact ∧ AllExact vs

end

mutual

/-- How deep the arrays of a value are nested. -/
def Json.arrayDepth : Json → Nat
  | .array items => itemsDepth items + 1
  | _ => 0

/-- How deep the items of an array nest. -/
def itemsDepth : List Json → Nat
  | [] => 0
  | v :: vs => max v.arrayDepth (itemsDepth vs)

end

/-- `serde_json` reads what it prints, up to its limit on nesting. -/
def HostText.ReadsJson (H : HostText) : Prop :=
  ∀ items, (Json.array items).IsExact → (Json.array items).arrayDepth ≤ 127 →
    H.parseJson (jsonText (.array items)) = some (.array items)

/-- Rust reads the floats it prints, which it prints as numbers. -/
structure HostText.ReadsFloats (H : HostText) : Prop where
  chars32 : ∀ bits t, H.floats.fromF32 bits = some t → ∀ c ∈ t, isNumberChar c = true
  chars64 : ∀ bits t, H.floats.fromF64 bits = some t → ∀ c ∈ t, isNumberChar c = true
  read32 : ∀ bits t, H.floats.fromF32 bits = some t → H.parseF32 t = some bits
  read64 : ∀ bits t, H.floats.fromF64 bits = some t → H.parseF64 t = some bits

section Shown

variable {F : FloatText}

mutual

/-- A key that is no float is shown as a value that reads back. -/
theorem JavaKey.isExact_shown (k : JavaKey) (t : Text) (hk : k.IsKeyOf t)
    (hfloat : k.isFloating = false) : (k.shown F).IsExact := by
  match k with
  | .string _ | .utf16 _ | .boolean _ | .bigInteger _ _ | .localDate _ _ _ | .date _ => trivial
  | .char unit =>
    rw [JavaKey.shown, charValue_eq]
    trivial
  | .long v => exact ⟨v.le_toInt, v.toInt_lt⟩
  | .int v =>
    have hlo := v.le_toInt
    have hhi := v.toInt_lt
    exact ⟨by omega, by omega⟩
  | .short v =>
    have hlo := v.le_toInt
    have hhi := v.toInt_lt
    exact ⟨by omega, by omega⟩
  | .byte v =>
    have hlo := v.le_toInt
    have hhi := v.toInt_lt
    exact ⟨by omega, by omega⟩
  | .float _ | .double _ => cases hfloat
  | .tuple fields =>
    rw [JavaKey.IsKeyOf] at hk
    obtain ⟨inner, -, hfields⟩ := hk
    exact allExact_fieldsShown fields _ hfields

theorem allExact_fieldsShown (ks : List JavaKey) (ts : List Text) (hks : FieldsAreKeysOf ks ts) :
    AllExact (fieldsShown F ks) := by
  match ks, ts with
  | [], _ => trivial
  | k :: ks, t :: ts =>
    rw [FieldsAreKeysOf] at hks
    exact ⟨k.isExact_shown (trim t) hks.2.1 hks.1, allExact_fieldsShown ks ts hks.2.2⟩

end

mutual

/-- A key is shown as deep as it nests. -/
theorem JavaKey.arrayDepth_shown (k : JavaKey) : (k.shown F).arrayDepth = k.depth := by
  match k with
  | .string _ | .utf16 _ | .boolean _ | .bigInteger _ _ | .localDate _ _ _ | .date _ | .long _
  | .int _ | .short _ | .byte _ => rfl
  | .char unit =>
    rw [JavaKey.shown, charValue_eq]
    rfl
  | .float bits =>
    rw [JavaKey.shown]
    cases F.fromF32 (javaFloatBits bits).toUInt32 <;> rfl
  | .double bits =>
    rw [JavaKey.shown]
    cases F.fromF64 (javaDoubleBits bits).toUInt64 <;> rfl
  | .tuple fields =>
    rw [JavaKey.shown, Json.arrayDepth, itemsDepth_fieldsShown, JavaKey.depth]

theorem itemsDepth_fieldsShown (ks : List JavaKey) :
    itemsDepth (fieldsShown F ks) = fieldsDepth ks := by
  match ks with
  | [] => rfl
  | k :: ks => rw [fieldsShown, itemsDepth, k.arrayDepth_shown, itemsDepth_fieldsShown, fieldsDepth]

end

theorem length_fieldsShown {ks : List JavaKey} {ts : List Text} (hks : FieldsAreKeysOf ks ts) :
    (fieldsShown F ks).length = ts.length := by
  induction ks generalizing ts with
  | nil =>
    cases ts with
    | nil => rfl
    | cons t ts => cases hks
  | cons k ks ih =>
    cases ts with
    | nil => cases hks
    | cons t ts =>
      rw [FieldsAreKeysOf] at hks
      rw [fieldsShown, List.length_cons, ih hks.2.2, List.length_cons]

mutual

/-- A value without floats has no null in it. -/
theorem hasNull_of_isExact (v : Json) (hv : v.IsExact) : hasNull v = false := by
  match v with
  | .string _ | .bool _ | .number _ => rfl
  | .array items => exact anyNull_of_allExact items hv
  | .null | .object _ => cases hv

theorem anyNull_of_allExact (vs : List Json) (hvs : AllExact vs) : anyNull vs = false := by
  match vs with
  | [] => rfl
  | v :: vs =>
    rw [anyNull, hasNull_of_isExact v hvs.1, anyNull_of_allExact vs hvs.2]
    rfl

end

end Shown

/-! ### Parsing it back -/

section Parse

variable {H : HostText}

/-- Units without a lone surrogate are the units of their text. -/
theorem encodeUtf16_plainText {units : List UInt16}
    (h : (decodeUtf16 units).any isLoneSurrogate = false) :
    encodeUtf16 (plainText (decodeUtf16 units)) = units := by
  have hitems := map_ok_plainText h
  have hunits := unitsOfDecoded_decodeUtf16 units
  have hencode : unitsOfDecoded ((plainText (decodeUtf16 units)).map .ok)
      = encodeUtf16 (plainText (decodeUtf16 units)) := by
    simp only [unitsOfDecoded, encodeUtf16, List.flatMap_map]
    rfl
  rw [← hencode, ← hitems, hunits]

/-- The key of some units is hashed and stored as they are. -/
theorem stringKeyOf_spec (units : List UInt16) :
    (stringKeyOf units).hashCode = javaUtf16Hash units
      ∧ (stringKeyOf units).serialize = writeUtf16Value units := by
  unfold stringKeyOf
  by_cases hlone : (decodeUtf16 units).any isLoneSurrogate = true
  · rw [if_pos hlone]
    exact ⟨rfl, rfl⟩
  · rw [if_neg hlone]
    have hplain := encodeUtf16_plainText (Bool.eq_false_iff.mpr hlone)
    rw [JavaKey.hashCode, javaStringHash, JavaKey.serialize, hplain]
    exact ⟨rfl, rfl⟩

/-- A scalar type needs no more than one level. -/
theorem parseFuel_scalar {depth : Nat} {t text : Text} {r : Except Text JavaKey}
    (h : parseScalarKey H t text = some r) : JavaKey.parseFuel H (depth + 1) t text = r := by
  rw [JavaKey.parseFuel, JavaKey.parseWith, h]

/-- A tuple is no scalar. -/
theorem parseScalarKey_tuple {t inner : Text} (h : typeArgs "Tuple<".toList t = some inner)
    (text : Text) : parseScalarKey H t text = none := by
  obtain rfl := typeArgs_eq_some.mp h
  simp [parseScalarKey]

/-- The text of a string key gives its units, an escape of lone surrogates read back. -/
theorem parseScalarKey_string {units : List UInt16} :
    parseScalarKey H "String".toList (keyString units) = some (.ok (stringKeyOf units)) := by
  simp [parseScalarKey, parseKeyString_keyString]

theorem parseScalarKey_long (v : Int64) :
    parseScalarKey H "Long".toList (intText v.toInt) = some (.ok (.long v)) := by
  simp [parseScalarKey, parseI64_toInt]

theorem parseScalarKey_int (v : Int32) :
    parseScalarKey H "Int".toList (intText v.toInt) = some (.ok (.int v)) := by
  simp [parseScalarKey, parseI32_toInt]

theorem parseScalarKey_short (v : Int16) :
    parseScalarKey H "Short".toList (intText v.toInt) = some (.ok (.short v)) := by
  simp [parseScalarKey, parseI16_toInt]

theorem parseScalarKey_byte (v : Int8) :
    parseScalarKey H "Byte".toList (intText v.toInt) = some (.ok (.byte v)) := by
  simp [parseScalarKey, parseI8_toInt]

theorem parseBooleanKey_boolText (v : Bool) : parseBooleanKey (boolText v) = some (.boolean v) := by
  cases v <;> rfl

theorem parseScalarKey_boolean (v : Bool) :
    parseScalarKey H "Boolean".toList (boolText v) = some (.ok (.boolean v)) := by
  simp [parseScalarKey, parseBooleanKey_boolText]

theorem parseScalarKey_char (unit : UInt16) :
    parseScalarKey H "Char".toList (charText unit) = some (.ok (.char unit)) := by
  simp [parseScalarKey, parseChar_charText]

theorem parseScalarKey_localDate (year : Int32) (month day : UInt8) :
    parseScalarKey H "LocalDate".toList (dateText year month day)
      = some (.ok (.localDate year month day)) := by
  simp [parseScalarKey, parseLocalDate_dateText]

theorem parseScalarKey_bigInteger {negative : Bool} {magnitude : List UInt32}
    (htop : magnitude.head? ≠ some 0) (hneg : negative = true → magnitude ≠ []) :
    parseScalarKey H "BigInteger".toList (intText (signedValue negative magnitude.reverse))
      = some (.ok (.bigInteger negative magnitude)) := by
  simp [parseScalarKey, trim_intText, parseDecimal_signedValue htop hneg]

mutual

/-- **The text of a key that is no float is parsed** to a key that is hashed and stored alike, on
    its own and as a field of a tuple. -/
theorem parse_renderKey (hjson : H.ReadsJson) (k : JavaKey) (t : Text) (hk : k.IsKeyOf t)
    (hfloat : k.isFloating = false) (hnested : k.depth ≤ 127) (depth : Nat)
    (hdepth : t.length < depth) (whole : Text) :
    ∃ text k', renderKey (k.shown H.floats) = some text
      ∧ fieldText H whole (k.shown H.floats) = .ok text
      ∧ JavaKey.parseFuel H depth t text = .ok k' ∧ k.Alike k' := by
  -- One level of fuel is for the type itself.
  obtain ⟨depth, rfl⟩ : ∃ d, depth = d + 1 := ⟨depth - 1, by omega⟩
  match k with
  | .string s =>
    rw [JavaKey.IsKeyOf] at hk
    obtain ⟨hash, bytes⟩ := stringKeyOf_spec (encodeUtf16 s)
    exact ⟨_, _, rfl, rfl, hk.1 ▸ parseFuel_scalar parseScalarKey_string, hash, bytes⟩
  | .utf16 units =>
    rw [JavaKey.IsKeyOf] at hk
    obtain ⟨hash, bytes⟩ := stringKeyOf_spec units
    exact ⟨_, _, rfl, rfl, hk.1 ▸ parseFuel_scalar parseScalarKey_string, hash, bytes⟩
  | .long v =>
    rw [JavaKey.IsKeyOf] at hk
    exact ⟨_, _, rfl, rfl, hk ▸ parseFuel_scalar (parseScalarKey_long v), .refl _⟩
  | .int v =>
    rw [JavaKey.IsKeyOf] at hk
    exact ⟨_, _, rfl, rfl, hk ▸ parseFuel_scalar (parseScalarKey_int v), .refl _⟩
  | .short v =>
    rw [JavaKey.IsKeyOf] at hk
    exact ⟨_, _, rfl, rfl, hk ▸ parseFuel_scalar (parseScalarKey_short v), .refl _⟩
  | .byte v =>
    rw [JavaKey.IsKeyOf] at hk
    exact ⟨_, _, rfl, rfl, hk ▸ parseFuel_scalar (parseScalarKey_byte v), .refl _⟩
  | .boolean v =>
    rw [JavaKey.IsKeyOf] at hk
    exact ⟨_, _, rfl, rfl, hk ▸ parseFuel_scalar (parseScalarKey_boolean v), .refl _⟩
  | .char unit =>
    rw [JavaKey.IsKeyOf] at hk
    rw [JavaKey.shown, charValue_eq]
    exact ⟨_, _, rfl, rfl, hk ▸ parseFuel_scalar (parseScalarKey_char unit), .refl _⟩
  | .bigInteger negative magnitude =>
    rw [JavaKey.IsKeyOf] at hk
    obtain ⟨rfl, htop, hneg, -⟩ := hk
    exact ⟨_, _, rfl, rfl, parseFuel_scalar (parseScalarKey_bigInteger htop hneg), .refl _⟩
  | .localDate year month day =>
    rw [JavaKey.IsKeyOf] at hk
    exact ⟨_, _, rfl, rfl, hk ▸ parseFuel_scalar (parseScalarKey_localDate year month day), .refl _⟩
  -- the text of a float is the float's own, and no claim of this lemma
  | .float _ | .double _ => cases hfloat
  | .date _ =>
    rw [JavaKey.IsKeyOf] at hk
    cases hk
  | .tuple fields =>
    have hexact : ((JavaKey.tuple fields).shown H.floats).IsExact :=
      (JavaKey.tuple fields).isExact_shown t hk rfl
    have hdepths := (JavaKey.tuple fields).arrayDepth_shown (F := H.floats)
    rw [JavaKey.IsKeyOf] at hk
    obtain ⟨inner, hargs, hfields⟩ := hk
    rw [JavaKey.shown] at hexact hdepths ⊢
    -- a tuple is shown as a JSON array, which reads back as the values shown
    have hread := hjson _ hexact (by omega)
    rw [JavaKey.depth] at hnested
    obtain ⟨ks', hparse, hhash, hbytes⟩ := parseFields_shown hjson fields _ hfields (by omega) depth
      (fun part hmem => by have := length_trim_lt_of_mem hargs hmem; omega)
      (jsonText (.array (fieldsShown H.floats fields)))
    refine ⟨jsonText (.array (fieldsShown H.floats fields)), .tuple ks', ?_, rfl, ?_, ?_, ?_⟩
    · have hnull := hasNull_of_isExact _ hexact
      rw [renderKey]
      · exact if_neg (by rw [hnull]; decide)
      all_goals simp
    · rw [JavaKey.parseFuel, JavaKey.parseWith, parseScalarKey_tuple hargs]
      simp only [hargs, parseTupleKey, hread, length_fieldsShown hfields, ne_eq, not_true_eq_false,
        ↓reduceIte, hparse]
      rfl
    · rw [JavaKey.hashCode, JavaKey.hashCode, hhash]
    · rw [JavaKey.serialize, JavaKey.serialize, hbytes]

/-- The fields of a tuple. -/
theorem parseFields_shown (hjson : H.ReadsJson) (ks : List JavaKey) (ts : List Text)
    (hks : FieldsAreKeysOf ks ts) (hnested : fieldsDepth ks ≤ 127) (depth : Nat)
    (hdepth : ∀ t ∈ ts, (trim t).length < depth) (whole : Text) :
    ∃ ks', parseFields H (JavaKey.parseFuel H depth) whole (fieldsShown H.floats ks) ts = .ok ks'
      ∧ hashCodes ks' = hashCodes ks ∧ serializeAll ks' = serializeAll ks := by
  match ks, ts with
  | [], [] => exact ⟨[], rfl, rfl, rfl⟩
  | k :: ks, t :: ts =>
    rw [FieldsAreKeysOf] at hks
    obtain ⟨hfloat, hk, hks⟩ := hks
    rw [fieldsDepth] at hnested
    obtain ⟨text, k', -, htext, hparse, halike⟩ := parse_renderKey hjson k (trim t) hk hfloat
      (by omega) depth (hdepth t List.mem_cons_self) whole
    obtain ⟨ks', hrest, hhash, hbytes⟩ := parseFields_shown hjson ks ts hks (by omega) depth
      (fun u hu => hdepth u (List.mem_cons_of_mem t hu)) whole
    refine ⟨k' :: ks', ?_, ?_, ?_⟩
    · rw [fieldsShown, parseFields, htext]
      simp only [bind, Except.bind, hparse, hrest]
      rfl
    · rw [hashCodes, hashCodes, halike.hash_eq, hhash]
    · rw [serializeAll, serializeAll, halike.bytes_eq, hbytes]

end

end Parse

/-! ### Floats -/

section Floats

variable {H : HostText}

/-- A number is not taken for the bytes of an opaque key. -/
theorem hexBytes_number {n : Nat} {t : Text} (h : ∀ c ∈ t, isNumberChar c = true) :
    hexBytes n t = none := by
  have hprefix : stripPrefix ['0', 'x'] t = none := by
    cases hstrip : stripPrefix ['0', 'x'] t with
    | none => rfl
    | some s =>
      have hx : 'x' ∈ t := by
        rw [stripPrefix_eq_some.mp hstrip]
        simp
      exact absurd (h 'x' hx) (by decide)
  rw [hexBytes, trim_number h, hprefix]
  rfl

/-- Java has one NaN, whose bits are left as they are. -/
theorem javaFloatBits_idem (bits : UInt32) :
    javaFloatBits (javaFloatBits bits).toUInt32 = javaFloatBits bits := by
  unfold javaFloatBits
  by_cases hnan : isNanF32 bits = true
  · rw [if_pos hnan]
    rfl
  · rw [if_neg hnan, if_neg (by simpa using hnan)]
    simp

theorem javaDoubleBits_idem (bits : UInt64) :
    javaDoubleBits (javaDoubleBits bits).toUInt64 = javaDoubleBits bits := by
  unfold javaDoubleBits
  by_cases hnan : isNanF64 bits = true
  · rw [if_pos hnan]
    rfl
  · rw [if_neg hnan, if_neg (by simpa using hnan)]
    simp

/-- A float is read from its number, or from its bytes when it has none. -/
theorem parseFloatKey_text (hfloats : H.ReadsFloats) (b : UInt32) :
    parseFloatKey H ((renderKey (.float (H.floats.fromF32 b))).getD (opaqueKey (writeInt b.toInt32)))
      = some (.float b) := by
  unfold parseFloatKey
  cases htext : H.floats.fromF32 b with
  | some t =>
    have hchars := hfloats.chars32 b t htext
    rw [show (renderKey (.float (some t))).getD (opaqueKey (writeInt b.toInt32)) = t from rfl,
      hexBytes_number hchars, trim_number hchars, hfloats.read32 b t htext]
    rfl
  | none =>
    have hlen : (writeInt b.toInt32).length = 4 := length_beBytes _ _
    have hbytes := hexBytes_opaqueKey (writeInt b.toInt32)
    rw [hlen] at hbytes
    rw [show (renderKey (.float none)).getD (opaqueKey (writeInt b.toInt32))
      = opaqueKey (writeInt b.toInt32) from rfl, hbytes]
    have hnat : beNat (writeInt b.toInt32) = b.toNat := by
      rw [writeInt, beNat_beBytes_of_lt]
      · rfl
      · exact b.toNat_lt
    simp [hnat]

/-- The text of a double, or its bytes where it has none, gives its bits. -/
theorem parseDoubleKey_text (hfloats : H.ReadsFloats) (b : UInt64) :
    parseDoubleKey H
        ((renderKey (.float (H.floats.fromF64 b))).getD (opaqueKey (writeLong b.toInt64)))
      = some (.double b) := by
  unfold parseDoubleKey
  cases htext : H.floats.fromF64 b with
  | some t =>
    have hchars := hfloats.chars64 b t htext
    rw [show (renderKey (.float (some t))).getD (opaqueKey (writeLong b.toInt64)) = t from rfl,
      hexBytes_number hchars, trim_number hchars, hfloats.read64 b t htext]
    rfl
  | none =>
    have hlen : (writeLong b.toInt64).length = 8 := length_beBytes _ _
    have hbytes := hexBytes_opaqueKey (writeLong b.toInt64)
    rw [hlen] at hbytes
    rw [show (renderKey (.float none)).getD (opaqueKey (writeLong b.toInt64))
      = opaqueKey (writeLong b.toInt64) from rfl, hbytes]
    have hnat : beNat (writeLong b.toInt64) = b.toNat := by
      rw [writeLong, beNat_beBytes_of_lt]
      · rfl
      · exact b.toNat_lt
    simp [hnat]

theorem parseScalarKey_float {text : Text} {k : JavaKey} (h : parseFloatKey H text = some k) :
    parseScalarKey H "Float".toList text = some (.ok k) := by
  simp [parseScalarKey, h]

theorem parseScalarKey_double {text : Text} {k : JavaKey} (h : parseDoubleKey H text = some k) :
    parseScalarKey H "Double".toList text = some (.ok k) := by
  simp [parseScalarKey, h]

end Floats

/-! ### Every key -/

/-- The types of scalar keys. -/
def scalarKeyTypes : List Text :=
  ["String".toList, "Long".toList, "Int".toList, "Short".toList, "Byte".toList, "Char".toList,
    "Boolean".toList, "Float".toList, "Double".toList, "BigInteger".toList, "LocalDate".toList]

theorem rendersInjectively_scalar {t : Text} (h : t ∈ scalarKeyTypes) (depth : Nat) :
    keyRendersInjectivelyFuel (depth + 1) t = true := by
  have hall : ∀ t ∈ scalarKeyTypes, (keyScalars.map Scalar.name).contains t = true := by decide
  rw [keyRendersInjectivelyFuel, hall t h, Bool.true_or]

/-- A key that is no tuple has a scalar type. -/
theorem JavaKey.type_mem {k : JavaKey} {t : Text} (hk : k.IsKeyOf t)
    (hscalar : ∀ fields, k ≠ .tuple fields) : t ∈ scalarKeyTypes := by
  cases k with
  | tuple fields => exact absurd rfl (hscalar fields)
  | date _ =>
    rw [JavaKey.IsKeyOf] at hk
    cases hk
  | string _ | utf16 _ | bigInteger _ _ =>
    rw [JavaKey.IsKeyOf] at hk
    obtain ⟨rfl, -⟩ := hk
    decide
  | long _ | int _ | short _ | byte _ | char _ | boolean _ | float _ | double _
  | localDate _ _ _ =>
    rw [JavaKey.IsKeyOf] at hk
    subst hk
    decide

mutual

/-- The types of keys are decoded. -/
theorem JavaKey.rendersInjectively (k : JavaKey) (t : Text) (hk : k.IsKeyOf t) (depth : Nat)
    (hdepth : t.length < depth) : keyRendersInjectivelyFuel depth t = true := by
  obtain ⟨depth, rfl⟩ : ∃ d, depth = d + 1 := ⟨depth - 1, by omega⟩
  match k with
  | .tuple fields =>
    rw [JavaKey.IsKeyOf] at hk
    obtain ⟨inner, hargs, hfields⟩ := hk
    have hall := fieldsRenderInjectively fields _ hfields depth fun part hmem => by
      have := length_trim_lt_of_mem hargs hmem
      omega
    rw [keyRendersInjectivelyFuel, hargs, Option.any_some, hall, Bool.or_true]
  | .string _ | .utf16 _ | .long _ | .int _ | .short _ | .byte _ | .char _ | .boolean _ | .float _
  | .double _ | .bigInteger _ _ | .localDate _ _ _ | .date _ =>
    exact rendersInjectively_scalar (JavaKey.type_mem hk fun _ h => JavaKey.noConfusion h) depth

/-- The fields of a tuple have texts of their own. -/
theorem fieldsRenderInjectively (ks : List JavaKey) (ts : List Text) (hks : FieldsAreKeysOf ks ts)
    (depth : Nat) (hdepth : ∀ t ∈ ts, (trim t).length < depth) :
    (ts.all fun f => keyRendersInjectivelyFuel depth (trim f)) = true := by
  match ks, ts with
  | [], [] => rfl
  | k :: ks, t :: ts =>
    rw [FieldsAreKeysOf] at hks
    rw [List.all_cons, k.rendersInjectively (trim t) hks.2.1 depth (hdepth t List.mem_cons_self),
      fieldsRenderInjectively ks ts hks.2.2 depth fun u hu => hdepth u (List.mem_cons_of_mem t hu)]
    rfl

end

/-- The text a key is shown as. -/
theorem canonicalText_eq (F : FloatText) {k : JavaKey} {t : Text} (hk : k.IsKeyOf t) :
    k.canonicalText F t = some ((renderKey (k.shown F)).getD (opaqueKey k.serialize)) := by
  have hread := k.reads_decodeKeyField (F := F) t hk (t.length + 1) (Nat.lt_succ_self _) [] 0
  rw [List.append_nil, Nat.zero_add] at hread
  have hinj : keyRendersInjectively t = true :=
    k.rendersInjectively t hk _ (Nat.lt_succ_self _)
  have hpojo : t ≠ "Pojo".toList := by
    rintro rfl
    exact absurd hinj (by decide)
  unfold JavaKey.canonicalText decodeKey
  simp only [if_neg hpojo, if_pos hinj, decodeKeyField, JavaReader.new, hread, ↓reduceIte,
    List.take_length]

/-- **Keys are typed back**: the text a key is shown as is parsed to a key that is shown, hashed and
    stored alike. -/
theorem typed_keys_parse {H : HostText} (hfloats : H.ReadsFloats) (hjson : H.ReadsJson)
    (k : JavaKey) (keyType : Text) (hk : k.IsKeyOf keyType) (hnested : k.depth ≤ 127) :
    ∃ text k', k.canonicalText H.floats keyType = some text
      ∧ JavaKey.parse H keyType text = .ok k'
      ∧ k'.canonicalText H.floats keyType = some text
      ∧ k'.hashCode = k.hashCode ∧ k'.serialize = k.serialize := by
  have htext := canonicalText_eq H.floats hk
  have hparse : ∃ k', JavaKey.parse H keyType
      ((renderKey (k.shown H.floats)).getD (opaqueKey k.serialize)) = .ok k' ∧ k.Alike k' := by
    -- the floating types have texts of their own; all others are rendered as JSON
    by_cases hfloat : k.isFloating = true
    · cases k with
      | float bits =>
        rw [JavaKey.IsKeyOf] at hk
        have hparse := parseFloatKey_text hfloats (javaFloatBits bits).toUInt32
        have hbits := javaFloatBits_idem bits
        refine ⟨.float (javaFloatBits bits).toUInt32,
          hk ▸ parseFuel_scalar (parseScalarKey_float hparse), hbits, ?_⟩
        rw [JavaKey.serialize, JavaKey.serialize, hbits]
      | double bits =>
        rw [JavaKey.IsKeyOf] at hk
        have hparse := parseDoubleKey_text hfloats (javaDoubleBits bits).toUInt64
        have hbits := javaDoubleBits_idem bits
        refine ⟨.double (javaDoubleBits bits).toUInt64,
          hk ▸ parseFuel_scalar (parseScalarKey_double hparse), congrArg javaLongHash hbits, ?_⟩
        rw [JavaKey.serialize, JavaKey.serialize, hbits]
      | _ => cases hfloat
    · obtain ⟨text, k', hrender, -, hparse, halike⟩ := parse_renderKey hjson k keyType hk
        (Bool.eq_false_iff.mpr hfloat) hnested _ (Nat.lt_succ_self _) []
      rw [hrender]
      exact ⟨k', hparse, halike⟩
  obtain ⟨k', hparse, halike⟩ := hparse
  refine ⟨_, k', htext, hparse, ?_, halike.hash_eq, halike.bytes_eq⟩
  rw [← htext]
  unfold JavaKey.canonicalText
  rw [halike.bytes_eq]

/-! ### A tuple -/

mutual

/-- A value that reads back is as `serde_json` would print it. -/
theorem canonical_of_isExact (v : Json) (hv : v.IsExact) : v.Canonical := by
  match v with
  | .string _ | .bool _ | .number (.int _) => trivial
  | .array items => exact itemsCanonical_of_allExact items hv
  | .null | .object _ | .number (.float _) => cases hv

theorem itemsCanonical_of_allExact (vs : List Json) (hvs : AllExact vs) : ItemsCanonical vs := by
  match vs with
  | [] => trivial
  | v :: vs => exact ⟨canonical_of_isExact v hvs.1, itemsCanonical_of_allExact vs hvs.2⟩

end

/-- A host that reads JSON, and no floats. -/
def jsonHost : HostText where
  floats := ⟨fun _ => none, fun _ => none⟩
  parseF32 _ := none
  parseF64 _ := none
  parseJson := parseJson
  debugText := quoted

/-- A host whose `from_str` is the model's own parser reads what is printed. -/
theorem readsJson_jsonHost : jsonHost.ReadsJson := fun items hexact _ =>
  parseJson_jsonText (canonical_of_isExact (.array items) hexact)

theorem readsFloats_jsonHost : jsonHost.ReadsFloats where
  chars32 _ _ h := by cases h
  chars64 _ _ h := by cases h
  read32 _ _ h := by cases h
  read64 _ _ h := by cases h

/-- A string with a lone surrogate and a number. -/
def pairKey : JavaKey := .tuple [.utf16 [97, 0xD800], .long (-5)]

/-- A pair of a string and a long. -/
theorem isKeyOf_pairKey : pairKey.IsKeyOf "Tuple<String,Long>".toList := by
  have hsplit : splitTopLevel "String,Long".toList = ["String".toList, "Long".toList] := by decide
  refine ⟨"String,Long".toList, by decide, ?_⟩
  rw [hsplit]
  have htrim : trim "Long".toList = "Long".toList := by decide
  exact ⟨rfl, ⟨by decide, by decide⟩, rfl, htrim, trivial⟩

/-- Its text gives the pair, with its hash and its bytes. -/
theorem typed_keys_parse_pair :
    ∃ text k', pairKey.canonicalText jsonHost.floats "Tuple<String,Long>".toList = some text
      ∧ JavaKey.parse jsonHost "Tuple<String,Long>".toList text = .ok k'
      ∧ k'.canonicalText jsonHost.floats "Tuple<String,Long>".toList = some text
      ∧ k'.hashCode = pairKey.hashCode ∧ k'.serialize = pairKey.serialize :=
  typed_keys_parse readsFloats_jsonHost readsJson_jsonHost pairKey _ isKeyOf_pairKey (by decide)

end FlinkExplorer
