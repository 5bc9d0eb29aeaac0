import FlinkExplorer.Parser.Key

namespace FlinkExplorer

open Lib

/-!
# `parser/key_group.rs` — keys by their text

A key typed as text is turned into the typed value (`JavaKey.parse`), its `hashCode()`
(`JavaKey.hashCode`), its key-group (`keyGroupForHash`) and the bytes its serializer writes
(`JavaKey.serialize`); `JavaKey.canonicalText` shows those bytes as a key read from a savepoint is
shown.

Floats are their bits.  `HostText` is what reading texts takes from Rust's standard library and
from serde_json.
-/

/-- What the standard library and serde_json do with texts. -/
structure HostText where
  floats : FloatText
  parseF32 : Text → Option UInt32
  parseF64 : Text → Option UInt64
  /-- `serde_json::from_str`. -/
  parseJson : Text → Option Json
  /-- `{:?}` of a string. -/
  debugText : Text → Text

/-! ### Key-groups -/

/-- `MathUtils.bitMix`, on the bits of the `i32`. -/
def bitMix (i : UInt32) : UInt32 :=
  let i := i ^^^ (i >>> 16)
  let i := i * 0x85ebca6b
  let i := i ^^^ (i >>> 13)
  let i := i * 0xc2b2ae35
  i ^^^ (i >>> 16)

/-- `u32::rotate_left`. -/
def rotateLeft (x k : UInt32) : UInt32 := (x <<< k) ||| (x >>> (32 - k))

/-- `MathUtils.murmurHash`: never negative. -/
def murmurHash (code : Int32) : Int32 :=
  let code := code.toUInt32 * 0xcc9e2d51
  let code := rotateLeft code 15
  let code := code * 0x1b873593
  let code := rotateLeft code 13
  let code := code * 5 + 0xe6546b64
  let code := (bitMix (code ^^^ 4)).toInt32
  if code ≥ 0 then code else if code ≠ Int32.minValue then -code else 0

/-- The key-group of a key whose `hashCode()` is `keyHash`. -/
def keyGroupForHash (keyHash : Int32) (maxParallelism : Int) : Int :=
  (murmurHash keyHash).toInt.tmod maxParallelism

/-- The first and last key-group of a subtask. -/
def rangeForSubtask (maxParallelism parallelism subtask : Int) : Int × Int :=
  ((subtask * maxParallelism + parallelism - 1).tdiv parallelism,
    ((subtask + 1) * maxParallelism - 1).tdiv parallelism)

/-- The subtask that owns a key-group. -/
def subtaskForKeyGroup (maxParallelism parallelism keyGroup : Int) : Int :=
  (keyGroup * parallelism).tdiv maxParallelism

/-! ### `hashCode()` -/

/-- `String.hashCode` of a string's UTF-16 units. -/
def javaUtf16Hash (units : List UInt16) : Int32 :=
  units.foldl (fun h c => h * 31 + c.toUInt32.toInt32) 0

def javaStringHash (s : Text) : Int32 := javaUtf16Hash (encodeUtf16 s)

/-- `Date.hashCode`. -/
def javaDateHash (millis : Int64) : Int32 := millis.toInt32 ^^^ (millis >>> 32).toInt32

/-- `LocalDate.hashCode`. -/
def javaLocalDateHash (year month day : Int32) : Int32 :=
  (year &&& (0xFFFFF800 : UInt32).toInt32) ^^^ (year <<< 11 + month <<< 6 + day)

/-- `Long.hashCode`. -/
def javaLongHash (v : Int64) : Int32 := (v.toUInt64 ^^^ (v.toUInt64 >>> 32)).toUInt32.toInt32

def javaBooleanHash (v : Bool) : Int32 := if v then 1231 else 1237

/-- `f32::is_nan` by the bits. -/
def isNanF32 (bits : UInt32) : Bool :=
  bits &&& 0x7f800000 == 0x7f800000 && bits &&& 0x007fffff != 0

/-- `f64::is_nan` by the bits. -/
def isNanF64 (bits : UInt64) : Bool :=
  bits &&& 0x7ff0000000000000 == 0x7ff0000000000000 && bits &&& 0x000fffffffffffff != 0

/-- `Float.floatToIntBits`: every NaN is the canonical one. -/
def javaFloatBits (bits : UInt32) : Int32 :=
  if isNanF32 bits then 0x7fc00000 else bits.toInt32

/-- `Double.doubleToLongBits`: every NaN is the canonical one. -/
def javaDoubleBits (bits : UInt64) : Int64 :=
  if isNanF64 bits then 0x7ff8000000000000 else bits.toInt64

def javaFloatHash (bits : UInt32) : Int32 := javaFloatBits bits

def javaDoubleHash (bits : UInt64) : Int32 := javaLongHash (javaDoubleBits bits)

/-- `TupleN.hashCode`. -/
def javaTupleHash (fieldHashes : List Int32) : Int32 :=
  fieldHashes.foldl (fun h f => h * 31 + f) 0

/-- `BigInteger.hashCode` of a sign and a magnitude's big-endian words. -/
def javaBigIntegerHash (negative : Bool) (magnitude : List UInt32) : Int32 :=
  let words := magnitude.dropWhile (· == 0)
  if words.isEmpty then 0
  else
    let h := words.foldl (fun h w => h * 31 + w.toInt32) (0 : Int32)
    if negative then -h else h

/-! ### Keys -/

/-- A key of one of the types whose `hashCode()` is known. -/
inductive JavaKey
  | string (s : Text)
  | utf16 (units : List UInt16)
  | long (v : Int64)
  | int (v : Int32)
  | short (v : Int16)
  | byte (v : Int8)
  | char (unit : UInt16)
  | boolean (v : Bool)
  | float (bits : UInt32)
  | double (bits : UInt64)
  | bigInteger (negative : Bool) (magnitude : List UInt32)
  | tuple (fields : List JavaKey)
  | date (millis : Int64)
  | localDate (year : Int32) (month day : UInt8)

mutual

/-- The Java `hashCode()` of a key. -/
def JavaKey.hashCode : JavaKey → Int32
  | .string s => javaStringHash s
  | .utf16 units => javaUtf16Hash units
  | .date millis => javaDateHash millis
  | .localDate year month day =>
    javaLocalDateHash year month.toUInt32.toInt32 day.toUInt32.toInt32
  | .long v => javaLongHash v
  | .int v => v
  | .short v => v.toInt32
  | .byte v => v.toInt32
  | .char unit => unit.toUInt32.toInt32
  | .boolean v => javaBooleanHash v
  | .float bits => javaFloatHash bits
  | .double bits => javaDoubleHash bits
  | .bigInteger negative magnitude => javaBigIntegerHash negative magnitude
  | .tuple fields => javaTupleHash (hashCodes fields)

def hashCodes : List JavaKey → List Int32
  | [] => []
  | k :: ks => k.hashCode :: hashCodes ks

end

/-- The bytes of a two's complement number without those that only repeat its sign. -/
def dropRedundant : Bytes → Bytes
  | [] => []
  | [b] => [b]
  | b :: c :: rest =>
    if (b = 0x00 ∧ c &&& 0x80 = 0) ∨ (b = 0xff ∧ c &&& 0x80 ≠ 0) then dropRedundant (c :: rest)
    else b :: c :: rest

/-- `BigInteger.toByteArray()` of a sign and a magnitude's big-endian words. -/
def bigIntegerToByteArray (negative : Bool) (magnitude : List UInt32) : Bytes :=
  -- One extra zero byte leaves room for the sign bit.
  let bytes := 0 :: magnitude.flatMap fun w => beBytes 4 w.toNat
  dropRedundant (if negative then incrementBytes (bytes.map (~~~ ·)) else bytes)

mutual

/-- The bytes a key's serializer writes. -/
def JavaKey.serialize : JavaKey → Bytes
  | .string s => writeUtf16Value (encodeUtf16 s)
  | .utf16 units => writeUtf16Value units
  | .date millis => writeLong millis
  | .localDate year month day => writeInt year ++ [month, day]
  | .long v => writeLong v
  | .int v => writeInt v
  | .short v => writeShort v
  | .byte v => [v.toUInt8]
  | .char unit => writeChar unit
  | .boolean v => writeBoolean v
  | .float bits => writeInt (javaFloatBits bits)
  | .double bits => writeLong (javaDoubleBits bits)
  | .bigInteger negative magnitude =>
    let bytes := bigIntegerToByteArray negative magnitude
    writeInt (Int32.ofNat (bytes.length + 4)) ++ bytes
  | .tuple fields => serializeAll fields

def serializeAll : List JavaKey → Bytes
  | [] => []
  | k :: ks => k.serialize ++ serializeAll ks

end

/-- A key as a key read from a savepoint is shown; `none` when its type is not decoded. -/
def JavaKey.canonicalText (F : FloatText) (k : JavaKey) (keyType : Text) : Option Text :=
  match decodeKey F k.serialize keyType none with
  | some (text, used) => if used = k.serialize.length then some text else none
  | none => none

/-! ### Parsing -/

/-- The value of a text of decimal digits. -/
def parseDigits (t : Text) : Option Nat :=
  if t ≠ [] ∧ t.all Char.isDigit then some (digitsValue t) else none

/-- `str::parse` of a signed integer between two bounds. -/
def parseSigned (lo hi : Int) (t : Text) : Option Int := do
  let v ← match t with
    | '-' :: ds => (parseDigits ds).map fun n => -(n : Int)
    | '+' :: ds => (parseDigits ds).map fun n => (n : Int)
    | ds => (parseDigits ds).map fun n => (n : Int)
  if lo ≤ v ∧ v ≤ hi then some v else none

/-- `str::parse` of an unsigned integer up to a bound. -/
def parseUnsigned (hi : Nat) (t : Text) : Option Nat := do
  let v ← match t with
    | '+' :: ds => parseDigits ds
    | ds => parseDigits ds
  if v ≤ hi then some v else none

def parseI64 (t : Text) : Option Int64 := (parseSigned (-2 ^ 63) (2 ^ 63 - 1) t).map Int64.ofInt
def parseI32 (t : Text) : Option Int32 := (parseSigned (-2 ^ 31) (2 ^ 31 - 1) t).map Int32.ofInt
def parseI16 (t : Text) : Option Int16 := (parseSigned (-2 ^ 15) (2 ^ 15 - 1) t).map Int16.ofInt
def parseI8 (t : Text) : Option Int8 := (parseSigned (-2 ^ 7) (2 ^ 7 - 1) t).map Int8.ofInt
def parseU8 (t : Text) : Option UInt8 := (parseUnsigned 255 t).map UInt8.ofNat

theorem parseDigits_padNat (w n : Nat) : parseDigits (padNat w n) = some n := by
  have hall : (padNat w n).all Char.isDigit = true :=
    List.all_eq_true.mpr fun c hc => isDigit_of_mem_padNat hc
  unfold parseDigits
  rw [if_pos ⟨padNat_ne_nil w n, hall⟩, digitsValue_padNat]

/-- A padded number is read back. -/
theorem parseSigned_padInt {lo hi v : Int} (w : Nat) (hlo : lo ≤ v) (hhi : v ≤ hi) :
    parseSigned lo hi (padInt w v) = some v := by
  unfold padInt
  by_cases hv : v < 0
  · rw [if_pos hv]
    simp [parseSigned, parseDigits_padNat, abs_of_neg hv, hlo, hhi]
  · rw [if_neg hv]
    have habs : ((v.natAbs : Nat) : Int) = v := by omega
    have hdigits := parseDigits_padNat w v.natAbs
    cases htext : padNat w v.natAbs with
    | nil => exact absurd htext (padNat_ne_nil w v.natAbs)
    | cons c cs =>
      have hc : c.isDigit = true := isDigit_of_mem_padNat (htext ▸ List.mem_cons_self)
      rw [htext] at hdigits
      unfold parseSigned
      split
      · rename_i heq
        obtain ⟨rfl, -⟩ := List.cons.inj heq
        cases hc
      · rename_i heq
        obtain ⟨rfl, -⟩ := List.cons.inj heq
        cases hc
      · rw [hdigits]
        simp [habs, hlo, hhi]

theorem parseI64_padInt {v : Int} (w : Nat) (hlo : -2 ^ 63 ≤ v) (hhi : v < 2 ^ 63) :
    parseI64 (padInt w v) = some (Int64.ofInt v) := by
  unfold parseI64
  rw [parseSigned_padInt w hlo (by omega)]
  rfl

/-- A number is read back. -/
theorem parseUnsigned_natText {hi n : Nat} (h : n ≤ hi) : parseUnsigned hi (natText n) = some n := by
  have hdigits := parseDigits_padNat 0 n
  rw [padNat_zero] at hdigits
  unfold parseUnsigned
  split
  · rename_i ds htext
    have hplus : ('+' : Char) ∈ natText n := htext ▸ List.mem_cons_self
    exact absurd (isDigit_of_mem_natText hplus) (by decide)
  · rw [hdigits]
    simp [h]

/-- `from_str_radix` of a text of a few hexadecimal digits: it takes a plus sign before them. -/
def parseHex (t : Text) : Option Nat :=
  let ds := match t with
    | '+' :: ds => ds
    | ds => ds
  if ds ≠ [] ∧ ds.all isHexDigit then some (ds.foldl (fun n c => n * 16 + hexValue c) 0) else none

/-- One UTF-16 unit: a single character, or the escape a lone surrogate renders as. -/
def parseChar (text : Text) : Option UInt16 :=
  match text with
  | [c] => if c.toNat < 65536 then some (UInt16.ofNat c.toNat) else none
  | _ => do
    let hex ← stripPrefix ['\\', 'u'] text
    if hex.length = 4 then (parseHex hex).map UInt16.ofNat else none

/-- The bytes of pairs of hexadecimal digits. -/
def hexPairs : Text → Option Bytes
  | a :: b :: rest => do
    let v ← parseHex [a, b]
    let vs ← hexPairs rest
    pure (UInt8.ofNat v :: vs)
  | [] => some []
  | [_] => none

/-- `0x` and exactly `n` bytes of hex. -/
def hexBytes (n : Nat) (text : Text) : Option Bytes := do
  let hex ← stripPrefix ['0', 'x'] (trim text)
  if hex.length = n * 2 then hexPairs hex else none

/-- Little-endian words times ten plus a digit, and the carry. -/
def timesTenPlus : Nat → List UInt32 → List UInt32 × Nat
  | carry, [] => ([], carry)
  | carry, w :: ws =>
    let v := w.toNat * 10 + carry
    let rest := timesTenPlus (v / 2 ^ 32) ws
    (UInt32.ofNat v :: rest.1, rest.2)

/-- Little-endian words with one more digit. -/
def pushDigit (words : List UInt32) (d : Char) : List UInt32 :=
  let next := timesTenPlus (d.toNat - '0'.toNat) words
  if next.2 ≠ 0 then next.1 ++ [UInt32.ofNat next.2] else next.1

/-- A decimal integer as its sign and its magnitude's big-endian words. -/
def parseDecimal (text : Text) : Option (Bool × List UInt32) :=
  let signed := match text with
    | '-' :: ds => (true, ds)
    | '+' :: ds => (false, ds)
    | ds => (false, ds)
  if signed.2 ≠ [] ∧ signed.2.all Char.isDigit then
    let words := (signed.2.foldl pushDigit []).reverse
    some (signed.1 && !words.isEmpty, words)
  else none

/-- `YYYY-MM-DD` split from the right: the year may be negative. -/
def splitDate (text : Text) : Option (Text × Text × Text) :=
  let back := text.reverse
  let d := back.takeWhile (· != '-')
  let back := back.dropWhile (· != '-')
  let m := (back.drop 1).takeWhile (· != '-')
  let back' := (back.drop 1).dropWhile (· != '-')
  if back = [] ∨ back' = [] then none
  else some ((back'.drop 1).reverse, m.reverse, d.reverse)

/-- `days_from_civil`, whose divisions truncate. -/
def daysFromCivilTrunc (y m d : Int) : Int :=
  let y := if m ≤ 2 then y - 1 else y
  let era := (if y ≥ 0 then y else y - 399).tdiv 400
  let yoe := y - era * 400
  let mp := if m > 2 then m - 3 else m + 9
  let doy := (153 * mp + 2).tdiv 5 + d - 1
  let doe := yoe * 365 + yoe.tdiv 4 - yoe.tdiv 100 + doy
  era * 146097 + doe - 719468

/-- A result that fits an `i64`. -/
def inI64 (v : Int) : Option Int := if -2 ^ 63 ≤ v ∧ v ≤ 2 ^ 63 - 1 then some v else none

/-- A number of a date's text, of fewer than 40 bits. -/
def datePart (t : Text) : Option Int :=
  ((parseI64 t).map Int64.toInt).filter fun v => v.natAbs < 2 ^ 40

/-- What comes before and after the first `sep`, if there is one. -/
def splitOnce (sep : Char) (t : Text) : Option (Text × Text) :=
  if sep ∈ t then some (t.takeWhile (· != sep), (t.dropWhile (· != sep)).drop 1) else none

theorem splitOnce_append {sep : Char} {a : Text} (b : Text) (ha : sep ∉ a) :
    splitOnce sep (a ++ sep :: b) = some (a, b) := by
  have hne : ∀ c ∈ a, (c != sep) = true := fun c hc => by
    simpa using fun h : c = sep => ha (h ▸ hc)
  unfold splitOnce
  rw [if_pos (by simp), List.takeWhile_append_of_pos hne, List.dropWhile_append_of_pos hne]
  simp

theorem splitOnce_none {sep : Char} {a : Text} (ha : sep ∉ a) : splitOnce sep a = none :=
  if_neg ha

theorem splitOn_three {sep : Char} {a b c : Text} (ha : sep ∉ a) (hb : sep ∉ b) (hc : sep ∉ c) :
    (a ++ sep :: b ++ sep :: c).splitOn sep = [a, b, c] := by
  rw [List.append_assoc, List.cons_append, List.splitOn_append_cons_self_of_not_mem ha,
    List.splitOn_append_cons_self_of_not_mem hb, List.splitOn_eq_singleton hc]

/-- The epoch milliseconds of a date as `millisToIso` renders it, exactly. -/
def parseIsoMillis (text : Text) : Option Int64 := do
  let text := trim text
  let (date, time) ← (stripSuffix ['Z'] text).bind (splitOnce 'T')
  let (y, m, d) ← splitDate date
  let (hms, ms) ← match splitOnce '.' time with
    | some (hms, ms) => (parseI64 ms).map fun ms => (hms, ms.toInt)
    | none => some (time, 0)
  match hms.splitOn ':' with
  | h :: mi :: s :: _ => do
    let days := daysFromCivilTrunc (← datePart y) (← datePart m) (← datePart d)
    let secs ← inI64 (days * 86400)
    let secs ← inI64 (secs + ((← datePart h) * 3600 + (← datePart mi) * 60 + (← datePart s)))
    let millis ← (inI64 (secs * 1000)).bind fun v => inI64 (v + ms)
    if millisToIso millis = text then some (Int64.ofInt millis) else none
  | _ => none

/-- A local date as it renders, exactly. -/
def parseLocalDate (text : Text) : Option (Int32 × UInt8 × UInt8) := do
  let text := trim text
  let (y, m, d) ← splitDate text
  let y ← parseI32 y
  let m ← parseU8 m
  let d ← parseU8 d
  if dateText y m d = text then some (y, m, d) else none

section Parse

variable (H : HostText)

/-- `JavaKey::Float` and `JavaKey::Double`: the hex of the bytes, or what Rust parses. -/
def parseFloatKey (text : Text) : Option JavaKey :=
  match hexBytes 4 text with
  | some b => some (.float (UInt32.ofNat (beNat b)))
  | none => (H.parseF32 (trim text)).map .float

def parseDoubleKey (text : Text) : Option JavaKey :=
  match hexBytes 8 text with
  | some b => some (.double (UInt64.ofNat (beNat b)))
  | none => (H.parseF64 (trim text)).map .double

/-- A string key: with a lone surrogate, its units. -/
def stringKeyOf (units : List UInt16) : JavaKey :=
  if (decodeUtf16 units).any isLoneSurrogate then .utf16 units
  else .string (plainText (decodeUtf16 units))

/-- A date key: as rendered, or epoch milliseconds. -/
def parseDateKey (text : Text) : Option JavaKey :=
  match parseI64 (trim text) with
  | some millis => some (.date millis)
  | none => (parseIsoMillis text).map .date

def parseBooleanKey (text : Text) : Option JavaKey :=
  if trim text = "true".toList then some (.boolean true)
  else if trim text = "false".toList then some (.boolean false)
  else none

/-- A key of a type that is not a tuple; `none` when the type is not one of these. -/
def parseScalarKey (keyType text : Text) : Option (Except Text JavaKey) :=
  let orElse (k : Option JavaKey) (reason : Text) : Option (Except Text JavaKey) :=
    some (k.elim (.error (H.debugText text ++ reason)) .ok)
  let bad := " is not a ".toList ++ keyType ++ " key".toList
  if keyType = "String".toList then
    orElse ((parseKeyString text).map stringKeyOf)
      (" is not a String key: in a key rendered escaped, \\u must start a lone-surrogate ".toList
        ++ "escape \\uXXXX and a literal backslash is \\\\".toList)
  else if keyType = "Date".toList then
    orElse (parseDateKey text) (" is not a Date key: give it as rendered ".toList
      ++ "(YYYY-MM-DDTHH:MM:SS[.mmm]Z, UTC) or as epoch milliseconds".toList)
  else if keyType = "LocalDate".toList then
    orElse ((parseLocalDate text).map fun (y, m, d) => .localDate y m d)
      " is not a LocalDate key (YYYY-MM-DD)".toList
  else if keyType = "Long".toList then orElse ((parseI64 (trim text)).map .long) bad
  else if keyType = "Int".toList then orElse ((parseI32 (trim text)).map .int) bad
  else if keyType = "Short".toList then orElse ((parseI16 (trim text)).map .short) bad
  else if keyType = "Byte".toList then orElse ((parseI8 (trim text)).map .byte) bad
  else if keyType = "Boolean".toList then orElse (parseBooleanKey text) bad
  else if keyType = "Char".toList then orElse ((parseChar text).map .char) bad
  else if keyType = "Float".toList then orElse (parseFloatKey H text) bad
  else if keyType = "Double".toList then orElse (parseDoubleKey H text) bad
  else if keyType = "BigInteger".toList then
    orElse ((parseDecimal (trim text)).map fun (negative, words) => .bigInteger negative words) bad
  else none

/-- The text of a field of a tuple key. -/
def fieldText (text : Text) : Json → Except Text Text
  | .string s => pure s
  | .null => throw (H.debugText text ++ ": a tuple field cannot be null".toList)
  | other => pure (jsonText other)

/-- The fields of a tuple key, by `parse`. -/
def parseFields (parse : Text → Text → Except Text JavaKey) (text : Text) :
    List Json → List Text → Except Text (List JavaKey)
  | item :: items, t :: ts => do
    let k ← parse (trim t) (← fieldText H text item)
    let ks ← parseFields parse text items ts
    pure (k :: ks)
  | _, _ => pure []

/-- A tuple key: a JSON array of its fields. -/
def parseTupleKey (parse : Text → Text → Except Text JavaKey) (keyType inner text : Text) :
    Except Text JavaKey := do
  let fieldTypes := splitTopLevel inner
  match H.parseJson text with
  | some (.array items) =>
    if items.length ≠ fieldTypes.length then
      throw (H.debugText text ++ " has ".toList ++ natText items.length ++ " fields, ".toList
        ++ keyType ++ " has ".toList ++ natText fieldTypes.length)
    else return .tuple (← parseFields H parse text items fieldTypes)
  | _ => throw (H.debugText text ++ " is not a ".toList ++ keyType
      ++ " key: a tuple key is a JSON array of its fields".toList)

def hashUnknown (keyType : Text) : Text :=
  "the hashCode() of a ".toList ++ keyType ++ " key is not known here".toList

/-- `JavaKey::parse`, with the parser of the fields of a tuple as an argument. -/
def JavaKey.parseWith (parse : Text → Text → Except Text JavaKey) (keyType text : Text) :
    Except Text JavaKey :=
  match parseScalarKey H keyType text with
  | some k => k
  | none =>
    match typeArgs "Tuple<".toList keyType with
    | some inner => parseTupleKey H parse keyType inner text
    | none =>
      if keyType = "Pojo".toList then
        throw ("a POJO key is hashed by its class's own hashCode(), which the savepoint does ".toList
          ++ "not describe".toList)
      else throw (hashUnknown keyType)

/-- `JavaKey::parse` cut at a depth of recursion. -/
def JavaKey.parseFuel : Nat → Text → Text → Except Text JavaKey
  | 0 => fun keyType _ => throw (hashUnknown keyType)
  | depth + 1 => JavaKey.parseWith H (JavaKey.parseFuel depth)

/-- Parse the text of a key.  The fields of a tuple have types shorter than its own. -/
def JavaKey.parse (keyType text : Text) : Except Text JavaKey :=
  JavaKey.parseFuel H (keyType.length + 1) keyType text

end Parse

end FlinkExplorer
