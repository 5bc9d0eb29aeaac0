import FlinkExplorer.Parser.Key

namespace FlinkExplorer

open Lib Lib.Read

/-!
# `parser/value.rs` — the value of a state

`decodeStateValue` decodes the bytes stored for one key and state: a keyed list by its
delimiters, a value with a time to live behind its timestamp, anything else by `decodeField`.
`decodeMapEntry` decodes one entry of a map state, the map key from what follows the namespace.

A map's value type may be a map again, one level shorter.
-/

/-- The value of a decoding, whether or not it was complete. -/
def valueOf (decoded : Except Json Json) : Json :=
  match decoded with
  | .ok v => v
  | .error v => v

/-- Split a `Map<K,V>` type into its key and value types. -/
def splitMapTypes (valueType : Text) : Text × Text :=
  match (typeArgs "Map<".toList valueType).map splitTopLevel with
  | some (k :: rest) => (trim k, trim (joinCommas rest))
  | _ => (['?'], ['?'])

section Decode

variable (F : FloatText) (proto : Option ProtoContext)

/-- The `ListDelimitedSerializer` delimiter. -/
def listDelimiter : UInt8 := 0x2c

/-- The marker for what follows an element that could not be decoded. -/
def restOfList : Json := .string "[not decoded: the rest of the list]".toList

/-- The elements of a keyed list from here on, after `items`.  Each element but the first takes a
    delimiter, so `fuel` is the bytes left. -/
def decodeListLoop (decode : ReadBytes Json Json) : Nat → List Json → JavaReader → List Json
  | 0, items, _ => items
  | fuel + 1, items, r =>
    match decode r with
    | (.error failed, r) =>
      if r.inner.length > 0 then items ++ [failed, restOfList] else items ++ [failed]
    | (.ok v, r) =>
      let items := items ++ [v]
      if items.length > 1000000 then items
      else
        match readByte r with
        | (.ok b, r) => if b = listDelimiter then decodeListLoop decode fuel items r else items
        | (.error _, _) => items

/-- A keyed list: elements back to back, a delimiter between them. -/
def decodeList (r : JavaReader) (elemType : Text) (elemPojo : Option PojoInfo) : Json :=
  let decode := match elemPojo with
    | some info => decodePojo F proto info
    | none => decodeField F proto elemType none
  .array (decodeListLoop decode (r.inner.length + 1) [] r)

/-- A value behind the time it was last accessed. -/
def decodeTtl (bytes : Bytes) (valueType inner : Text) (pojo : Option PojoInfo) : Json :=
  match readLong (JavaReader.new bytes) with
  | (.error _, _) => undecodable valueType
  | (.ok ts, r) =>
    let value := match pojo with
      | some info => decodePojo F proto info r
      | none => decodeField F proto inner none r
    .object [("_ttlLastAccess".toList, .string (millisToIso ts.toInt)),
      ("value".toList, valueOf value.1)]

/-- `trim_matches('"')`. -/
def trimQuotes (t : Text) : Text :=
  ((t.dropWhile (· == '"')).reverse.dropWhile (· == '"')).reverse

/-- The text of a map key: a string as it is, anything else as it prints. -/
def mapKeyText (namespaceBytes : Bytes) (keyType : Text) (fallbackKey : Nat) : Text :=
  match (decodeField F proto keyType none (JavaReader.new namespaceBytes.tail)).1 with
  | .ok (.string s) => s
  | .ok .null => "[null]".toList
  | .ok v => trimQuotes (jsonText v)
  | .error failed => valueToDisplay failed ++ " #".toList ++ natText fallbackKey

/-- One entry of a map state, with the decoder of its value as an argument. -/
def decodeMapEntryWith (decodeValue : Bytes → Json) (namespaceBytes value : Bytes)
    (keyType valType : Text) (fallbackKey : Nat) : Text × Json :=
  (mapKeyText F proto namespaceBytes keyType fallbackKey,
    match value with
    | [] => undecodable valType
    | b :: rest => if b = 1 then .null else decodeValue rest)

/-- The entries of a map blob from the `i`-th on, inserted into `obj`. -/
def mapBlobLoop (decodeValue : Bytes → Json) (keyType valType : Text) :
    Nat → Nat → List (Text × Json) → JavaReader → List (Text × Json)
  | 0, _, obj, _ => obj
  | count + 1, i, obj, r =>
    match readLenBytes r with
    | (.error _, _) => obj
    | (.ok ns, r) =>
      match readLenBytes r with
      | (.error _, _) => obj
      | (.ok val, r) =>
        let entry := decodeMapEntryWith F proto decodeValue ns val keyType valType i
        mapBlobLoop decodeValue keyType valType count (i + 1) (objInsert entry.1 entry.2 obj) r

/-- A whole map, as one blob. -/
def decodeMapBlob (decodeValue : Text → Bytes → Json) (bytes : Bytes) (valueType : Text) : Json :=
  let types := splitMapTypes valueType
  match readInt (JavaReader.new bytes) with
  | (.error _, _) => undecodable valueType
  | (.ok count, r) =>
    if 0 ≤ count.toInt ∧ count.toInt ≤ 1000000 then
      .object (mapBlobLoop F proto (decodeValue types.2) types.1 types.2 count.toInt.toNat 0 [] r)
    else undecodable valueType

/-- `decode_state_value`, with the decoder of a map's values as an argument. -/
def decodeStateValueWith (decodeValue : Text → Bytes → Json) (bytes : Bytes) (valueType : Text)
    (pojo : Option PojoInfo) : Json :=
  if bytes = [] then .null
  else if "Map<".toList.isPrefixOf valueType then decodeMapBlob F proto decodeValue bytes valueType
  else
    match typeArgs "Ttl<".toList valueType with
    | some inner => decodeTtl F proto bytes valueType inner pojo
    | none =>
      match (stripPrefix "List<".toList valueType).orElse
        fun _ => stripPrefix "Array<".toList valueType with
      | some inner =>
        let elemType := (stripSuffix ['>'] inner).getD inner
        let elemPojo := if containsText "Pojo".toList elemType then pojo else none
        decodeList F proto (JavaReader.new bytes) elemType elemPojo
      | none =>
        match pojo with
        | some info =>
          if valueType.contains '<' then
            valueOf (decodeField F proto valueType none (JavaReader.new bytes)).1
          else valueOf (decodePojo F proto info (JavaReader.new bytes)).1
        | none => valueOf (decodeField F proto valueType none (JavaReader.new bytes)).1

/-- `decode_state_value` cut at a depth of maps in maps. -/
def decodeStateValueFuel (pojo : Option PojoInfo) : Nat → Text → Bytes → Json
  | 0, valueType, _ => undecodable valueType
  | depth + 1, valueType, bytes =>
    decodeStateValueWith F proto (decodeStateValueFuel pojo depth) bytes valueType pojo

/-- Decode a complete state value. -/
def decodeStateValue (bytes : Bytes) (valueType : Text) (pojo : Option PojoInfo) : Json :=
  decodeStateValueFuel F proto pojo (valueType.length + 1) valueType bytes

/-- Decode one entry of a map state. -/
def decodeMapEntry (namespaceBytes value : Bytes) (keyType valType : Text)
    (pojo : Option PojoInfo) (fallbackKey : Nat) : Text × Json :=
  decodeMapEntryWith F proto (fun bytes => decodeStateValue F proto bytes valType pojo)
    namespaceBytes value keyType valType fallbackKey

end Decode

end FlinkExplorer
