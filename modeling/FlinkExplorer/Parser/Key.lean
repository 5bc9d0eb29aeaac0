import FlinkExplorer.Parser.ValueRec

namespace FlinkExplorer

open Lib Lib.Read

/-!
# `parser/value.rs` — keys as text

`decodeKey` turns the bytes of a keyed-state key into the text it is grouped, looked up and
paged by, with the number of bytes it takes.  A type whose rendering loses information is not
decoded at all (`keyRendersInjectively`), and a value that decodes to a null is shown as the hex
of its bytes (`opaqueKey`).
-/

/-! ### Display of decoded values -/

/-- Parts joined by a comma and a blank. -/
def joinDisplay (parts : List Text) : Text := (parts.intersperse [',', ' ']).flatten

mutual

/-- A decoded value as the display text: markers as they are, strings in quotes, nothing
    escaped. -/
def valueToDisplay : Json → Text
  | .null => "null".toList
  | .bool b => boolText b
  | .number n => numberText n
  | .string s => if isMarker s then s else '"' :: s ++ ['"']
  | .array items => '[' :: joinDisplay (itemsToDisplay items) ++ [']']
  | .object members => "\x7b ".toList ++ joinDisplay (membersToDisplay members) ++ " \x7d".toList

def itemsToDisplay : List Json → List Text
  | [] => []
  | v :: vs => valueToDisplay v :: itemsToDisplay vs

def membersToDisplay : List (Text × Json) → List Text
  | [] => []
  | (k, v) :: ms => (k ++ ": ".toList ++ valueToDisplay v) :: membersToDisplay ms

end

/-! ### String keys -/

/-- One decoded item of an escaped string key. -/
def escapeKeyItem : Except UInt16 Char → Text
  | .ok c => if c = '\\' then ['\\', '\\'] else [c]
  | .error unit => '\\' :: 'u' :: hexUnit unit

/-- Whether a decoded item is a lone surrogate. -/
def isLoneSurrogate : Except UInt16 Char → Bool
  | .ok _ => false
  | .error _ => true

/-- The characters of a decoded string, without its lone surrogates. -/
def plainText (items : List (Except UInt16 Char)) : Text :=
  items.filterMap fun
    | .ok c => some c
    | .error _ => none

/-- A string key's UTF-16 units as text: itself when it has no lone surrogate and no literal
    `\u`, else with both escaped. -/
def keyString (units : List UInt16) : Text :=
  let decoded := decodeUtf16 units
  let plain := plainText decoded
  if !decoded.any isLoneSurrogate && !containsText ['\\', 'u'] plain then plain
  else decoded.flatMap escapeKeyItem

/-- The unit four hexadecimal digits stand for. -/
def unitOfHex (a b c d : Char) : UInt16 :=
  UInt16.ofNat (((hexValue a * 16 + hexValue b) * 16 + hexValue c) * 16 + hexValue d)

/-- The units of an escaped string key; `none` when it is not well formed. -/
def parseEscapedKey : Text → Option (List UInt16)
  | [] => some []
  | '\\' :: '\\' :: cs => (parseEscapedKey cs).map (0x5C :: ·)
  | '\\' :: 'u' :: a :: b :: c :: d :: cs =>
    if isHexDigit a && isHexDigit b && isHexDigit c && isHexDigit d then
      (parseEscapedKey cs).map (unitOfHex a b c d :: ·)
    else none
  | '\\' :: _ => none
  | c :: cs => (parseEscapedKey cs).map (utf16Units c ++ ·)

/-- The UTF-16 units of a string key rendered by `keyString`; `none` for a text with a literal
    `\u` that is not a well-formed escaped rendering. -/
def parseKeyString (text : Text) : Option (List UInt16) :=
  if !containsText ['\\', 'u'] text then some (encodeUtf16 text) else parseEscapedKey text

/-- The display form of a key that could not be decoded: the hex of its bytes. -/
def opaqueKey (bytes : Bytes) : Text := '0' :: 'x' :: bytes.flatMap hexByte

/-! ### Types -/

/-- The scalars a key is decoded by: their text tells their values apart. -/
def keyScalars : List Scalar :=
  [.string, .long, .int, .short, .byte, .char, .boolean, .float, .double, .bigInteger,
    .bigDecimal, .date, .localDate]

/-- `key_renders_injectively` cut at a depth of recursion. -/
def keyRendersInjectivelyFuel : Nat → Text → Bool
  | 0, _ => false
  | depth + 1, keyType =>
    (keyScalars.map Scalar.name).contains keyType ||
      (typeArgs "Tuple<".toList keyType).any fun inner =>
        (splitTopLevel inner).all fun f => keyRendersInjectivelyFuel depth (trim f)

/-- Whether the decoded form of a key type is rendered without losing information. -/
def keyRendersInjectively (keyType : Text) : Bool :=
  keyRendersInjectivelyFuel (keyType.length + 1) keyType

/-! ### Decoding -/

section Decode

variable (F : FloatText)

/-- The fields of a tuple key, after `items`. -/
def decodeKeyTuple (dec : Text → ReadBytes Json Json) : List Json → List Text → ReadBytes Json Json
  | items, [] => pure (.array items)
  | items, t :: ts => do
    let v ← dec (trim t)
    decodeKeyTuple dec (items ++ [v]) ts

/-- A string key, rendered without losing a unit. -/
def decodeKeyString : ReadBytes Json Json := do
  let units ← readNullableStringUnits.mapError fun _ => undecodable "String".toList
  pure (units.elim .null fun units => .string (keyString units))

/-- `decode_key_field`, with the decoder of the fields of a tuple as an argument. -/
def decodeKeyFieldWith (dec : Text → ReadBytes Json Json) (keyType : Text) : ReadBytes Json Json :=
  if keyType = "String".toList then decodeKeyString
  else
    match typeArgs "Tuple<".toList keyType with
    | some inner => decodeKeyTuple dec [] (splitTopLevel inner)
    | none => decodeField F none keyType none

/-- `decode_key_field` cut at a depth of recursion. -/
def decodeKeyFieldFuel : Nat → Text → ReadBytes Json Json
  | 0 => fun t => throw (undecodable t)
  | depth + 1 => decodeKeyFieldWith F (decodeKeyFieldFuel depth)

/-- One field of a key: a string without losing a unit, a tuple field by field, anything else as
    a value is decoded. -/
def decodeKeyField (keyType : Text) : ReadBytes Json Json :=
  decodeKeyFieldFuel F (keyType.length + 1) keyType

/-! ### Rendering -/

mutual

/-- Whether a decoded key holds a null at any depth. -/
def hasNull : Json → Bool
  | .null => true
  | .array items => anyNull items
  | .object members => anyNullMember members
  | _ => false

def anyNull : List Json → Bool
  | [] => false
  | v :: vs => hasNull v || anyNull vs

def anyNullMember : List (Text × Json) → Bool
  | [] => false
  | (_, v) :: ms => hasNull v || anyNullMember ms

end

/-- A decoded key as text, or `none` when a part of it is null. -/
def renderKey (v : Json) : Option Text :=
  match v with
  | .null => none
  | .string s => some s
  | .bool b => some (boolText b)
  | .number n => some (numberText n)
  | composite => if hasNull composite then none else some (jsonText composite)

/-- Decode a key: its text and the number of bytes it takes.  `none` when it cannot be told
    apart from every other key of its type by what can be decoded of it. -/
def decodeKey (bytes : Bytes) (keyType : Text) (keyPojo : Option PojoInfo) : Option (Text × Nat) :=
  if keyType = "Pojo".toList then
    match keyPojo with
    | none => none
    | some info =>
      match decodePojo F none info (JavaReader.new bytes) with
      | (.ok v, r) => some (valueToDisplay v, r.pos)
      | (.error _, _) => none
  else if keyRendersInjectively keyType then
    match decodeKeyField F keyType (JavaReader.new bytes) with
    | (.ok v, r) =>
      some ((renderKey v).getD (opaqueKey (bytes.take r.pos)), r.pos)
    | (.error _, _) => none
  else none

/-- How many bytes one value of a type takes at the start of `bytes`, if it decodes. -/
def decodedLen (bytes : Bytes) (typeName : Text) : Option Nat :=
  match decodeField F none typeName none (JavaReader.new bytes) with
  | (.ok _, r) => some r.pos
  | (.error _, _) => none

end Decode

end FlinkExplorer
