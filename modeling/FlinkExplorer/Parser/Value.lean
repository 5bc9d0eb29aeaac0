import FlinkExplorer.Parser.JavaDeser
import FlinkExplorer.Parser.Json
import FlinkExplorer.Parser.PojoInfo

namespace FlinkExplorer

open Lib Lib.Read

/-!
# `parser/value.rs` — the value decoder

`decodeField` turns the bytes of one value into `Json`, given its serializer type (a string
such as `Tuple<String,Long>`) and, for a POJO, its layout.  Decoding ends in `ok` (the whole
value, the reader right after it) or in `error` (what could be read, with a marker where it
stopped).

The source's functions are mutually recursive through `decode_field`; here each takes the
decoder of its parts as an argument, and `decodeField` ties the knot.  The recursion always
enters a shorter type name or a nested layout, so `decodeWeight` bounds its depth
(`decodeField_eq` is the source's own equation, with no bound left in it).
-/

/-! ### Markers -/

/-- The marker for a Kryo-serialized value. -/
def kryoMarker : Text := "[Kryo]".toList

/-- The text of the marker for a value of type `typeName` that could not be decoded. -/
def undecodableText (typeName : Text) : Text :=
  if containsText "Kryo".toList typeName then kryoMarker
  else "[undecodable: ".toList ++ typeName ++ "]".toList

/-- The marker for a value of serializer type `typeName` that could not be decoded. -/
def undecodable (typeName : Text) : Json := .string (undecodableText typeName)

/-- The marker for a field that comes after `name`, which could not be fully decoded. -/
def notDecodedAfter (name : Text) : Json :=
  .string ("[not decoded: follows ".toList ++ name ++ "]".toList)

/-- Whether `s` is one of the markers rather than decoded data. -/
def isMarker (s : Text) : Bool :=
  s == kryoMarker
    || ("]".toList.isSuffixOf s
      && ("[undecodable: ".toList.isPrefixOf s || "[not decoded: ".toList.isPrefixOf s))

/-! ### Splitting type names -/

/-- The split in progress: bracket depth, then the current part, reversed. -/
def splitTopLevelGo : Int → Text → Text → List Text
  | _, cur, [] => if cur = [] then [] else [cur.reverse]
  | depth, cur, c :: cs =>
    if c = '<' then splitTopLevelGo (depth + 1) (c :: cur) cs
    else if c = '>' then splitTopLevelGo (depth - 1) (c :: cur) cs
    else if c = ',' ∧ depth = 0 then cur.reverse :: splitTopLevelGo depth [] cs
    else splitTopLevelGo depth (c :: cur) cs

/-- Split a comma-separated generic argument list at the top level (ignoring nested `<...>`);
    an empty last part is dropped. -/
def splitTopLevel (s : Text) : List Text := splitTopLevelGo 0 [] s

/-- The arguments of `name<...>`, if `t` is of that form. -/
def typeArgs (name t : Text) : Option Text := (stripPrefix name t).bind (stripSuffix ['>'])

/-! ### Big numbers -/

/-- `Result::ok`: a read without its error. -/
def ok {β : Type} (p : ReadBytes ParseError β) : ReadBytes Unit β := p.mapError fun _ => ()

/-- Largest `BigInteger` magnitude rendered, in bytes. -/
def maxBigIntegerBytes : Nat := 8192

/-- Add one to a big-endian byte string, dropping the last carry. -/
def incrementBytes (bs : Bytes) : Bytes :=
  (bs.foldr (fun b (acc : Bytes × Bool) =>
    if acc.2 then ((b + 1) :: acc.1, b = 0xff) else (b :: acc.1, false)) ([], true)).1

/-- One pass of long division of big-endian bytes by `10^9`: the quotient's bytes and the
    remainder. -/
def divModBase (bs : Bytes) : Bytes × Nat :=
  bs.foldl (fun (acc : Bytes × Nat) b =>
    let cur := acc.2 * 256 + b.toNat
    (acc.1 ++ [UInt8.ofNat (cur / 1000000000)], cur % 1000000000)) ([], 0)

/-- The base-`10^9` digits of a magnitude, least significant first.  Each pass shortens the
    magnitude or ends, so `passes` is its length. -/
def chunksLoop : Nat → Bytes → List Nat
  | 0, _ => []
  | passes + 1, mag =>
    match mag.dropWhile (· == 0) with
    | [] => []
    | m :: ms =>
      let (quotient, rem) := divModBase (m :: ms)
      rem :: chunksLoop passes quotient

/-- Decimal form of a big-endian two's complement integer (`BigInteger.toByteArray()`). -/
def twosComplementToDecimal (bytes : Bytes) : Text :=
  let negative := bytes.head?.any fun b => b &&& 0x80 != 0
  let mag := if negative then incrementBytes (bytes.map (~~~ ·)) else bytes
  let sign := if negative then ['-'] else []
  match (chunksLoop mag.length mag).reverse with
  | [] => sign ++ ['0']
  | most :: rest => sign ++ natText most ++ rest.flatMap (padNat 9)

/-- Read a `BigIntSerializer` value as a decimal string; `none` is a null value.  Lengths 1, 2
    and 3 stand for `ZERO`, `ONE` and `TEN`. -/
def readBigInteger : ReadBytes Unit (Option Text) := do
  let len ← ok readInt
  if len.toInt = 0 then pure none
  else if len.toInt = 1 then pure (some "0".toList)
  else if len.toInt = 2 then pure (some "1".toList)
  else if len.toInt = 3 then pure (some "10".toList)
  else if 4 < len.toInt ∧ len.toInt.toNat - 4 ≤ maxBigIntegerBytes then do
    let bytes ← ok (readBytes (len.toInt.toNat - 4))
    pure (some (twosComplementToDecimal bytes))
  else throw ()

/-- The printed form of a decimal without its sign: plain when the scale is not negative and the
    value not too small, else one digit, the others after a point, and an exponent. -/
def decimalText (digits : Text) (scale : Int) : Text :=
  let ulen : Int := digits.length
  let adjusted := -scale + (ulen - 1)
  if scale ≥ 0 ∧ adjusted ≥ -6 then
    if scale = 0 then digits
    else if scale < ulen then
      let point := (ulen - scale).toNat
      digits.take point ++ '.' :: digits.drop point
    else ['0', '.'] ++ List.replicate (scale - ulen).toNat '0' ++ digits
  else
    let fraction := if ulen > 1 then '.' :: digits.drop 1 else []
    let exponent :=
      if adjusted = 0 then []
      else if adjusted > 0 then 'E' :: '+' :: intText adjusted
      else 'E' :: intText adjusted
    digits.take 1 ++ fraction ++ exponent

/-- Java's `BigDecimal.toString()` for `unscaled × 10^-scale`. -/
def bigDecimalToString (unscaled : Text) (scale : Int) : Text :=
  match stripPrefix ['-'] unscaled with
  | some digits => '-' :: decimalText digits scale
  | none => decimalText unscaled scale

/-- Read a `BigDecSerializer` value as Java's `BigDecimal.toString()`; `none` is a null value. -/
def readBigDecimal : ReadBytes Unit (Option Text) := do
  let unscaled ← readBigInteger
  match unscaled with
  | none => pure none
  | some unscaled => do
    let scale ← ok readInt
    pure (some (bigDecimalToString unscaled scale.toInt))

/-! ### Scalars -/

/-- A `char` as a one-character string; a lone surrogate as its Java escape. -/
def charValue (unit : UInt16) : Json :=
  if isSurrogate unit then .string ('\\' :: 'u' :: hexUnit unit)
  else .string [Char.ofNat unit.toNat]

/-- Read a length-prefixed byte array. -/
def readLenBytes : ReadBytes Unit Bytes := do
  let len ← ok readInt
  if 0 ≤ len.toInt ∧ len.toInt ≤ 10000000 then ok (readBytes len.toInt.toNat)
  else throw ()

/-- A byte array as text when it is short and printable, else its length. -/
def bytesToValue (b : Bytes) : Json :=
  let opaqueForm := Json.string ("[".toList ++ natText b.length ++ " bytes]".toList)
  if b.length ≤ 200 then
    match decodeUtf8 b with
    | some s => if s.all fun c => !isControl c || c == '\n' then .string s else opaqueForm
    | none => opaqueForm
  else opaqueForm

/-- Read a length-prefixed array of fixed-size elements. -/
def readPrimArray (readOne : ReadBytes Unit Json) : ReadBytes Unit Json := do
  let len ← ok readInt
  if 0 ≤ len.toInt ∧ len.toInt ≤ 1000000 then do
    let items ← many readOne len.toInt.toNat
    pure (.array items)
  else throw ()

/-- The types `decode_scalar` matches by their whole name. -/
inductive Scalar
  | int | long | boolean | double | float | short | byte | char
  | bigInteger | bigDecimal | string | byteArray
  | localDateTime | localDate | localTime | instant | date | timestamp
  | enumOrdinal
  | intArray | longArray | doubleArray | floatArray | shortArray | booleanArray | charArray
  deriving DecidableEq

/-- The type name of a scalar. -/
def Scalar.name : Scalar → Text
  | .int => "Int".toList
  | .long => "Long".toList
  | .boolean => "Boolean".toList
  | .double => "Double".toList
  | .float => "Float".toList
  | .short => "Short".toList
  | .byte => "Byte".toList
  | .char => "Char".toList
  | .bigInteger => "BigInteger".toList
  | .bigDecimal => "BigDecimal".toList
  | .string => "String".toList
  | .byteArray => "byte[]".toList
  | .localDateTime => "LocalDateTime".toList
  | .localDate => "LocalDate".toList
  | .localTime => "LocalTime".toList
  | .instant => "Instant".toList
  | .date => "Date".toList
  | .timestamp => "Timestamp".toList
  | .enumOrdinal => "Enum".toList
  | .intArray => "int[]".toList
  | .longArray => "long[]".toList
  | .doubleArray => "double[]".toList
  | .floatArray => "float[]".toList
  | .shortArray => "short[]".toList
  | .booleanArray => "boolean[]".toList
  | .charArray => "char[]".toList

/-- Every scalar, in the order of the source's `match`. -/
def Scalar.all : List Scalar :=
  [.int, .long, .boolean, .double, .float, .short, .byte, .char, .bigInteger, .bigDecimal,
    .string, .byteArray, .localDateTime, .localDate, .localTime, .instant, .date, .timestamp,
    .enumOrdinal, .intArray, .longArray, .doubleArray, .floatArray, .shortArray, .booleanArray,
    .charArray]

/-- The scalar a type name is, if any. -/
def scalarOfName (typeName : Text) : Option Scalar := Scalar.all.find? fun s => s.name = typeName

theorem scalarOfName_name (s : Scalar) : scalarOfName s.name = some s := by
  cases s <;> decide

theorem scalarOfName_eq_some {t : Text} {s : Scalar} : scalarOfName t = some s ↔ t = s.name := by
  constructor
  · intro h
    exact (by simpa using List.find?_some h : s.name = t).symm
  · rintro rfl
    exact scalarOfName_name s

/-- `{:04}-{:02}-{:02}` of a date. -/
def dateText (y : Int32) (mo d : UInt8) : Text :=
  padInt 4 y.toInt ++ '-' :: padNat 2 mo.toNat ++ '-' :: padNat 2 d.toNat

/-- `{:02}:{:02}:{:02}` of a time, with milliseconds unless the nanoseconds are zero. -/
def timeText (h mi s : UInt8) (n : Int32) : Text :=
  let hms := padNat 2 h.toNat ++ ':' :: padNat 2 mi.toNat ++ ':' :: padNat 2 s.toNat
  if n = 0 then hms else hms ++ '.' :: padInt 3 (n / 1000000).toInt

section Scalars

variable (F : FloatText)

/-- The values an array of primitives holds, which are scalars of their own too. -/
def intValue : ReadBytes Unit Json := do let v ← ok readInt; pure (.int v.toInt)
def longValue : ReadBytes Unit Json := do let v ← ok readLong; pure (.int v.toInt)
def doubleValue : ReadBytes Unit Json := do
  let v ← ok readLong
  pure (.float (F.fromF64 v.toUInt64))
def floatValue : ReadBytes Unit Json := do
  let v ← ok readInt
  pure (.float (F.fromF32 v.toUInt32))
def shortValue : ReadBytes Unit Json := do let v ← ok readShort; pure (.int v.toInt)
def booleanValue : ReadBytes Unit Json := do let v ← ok readBoolean; pure (.bool v)
def unitValue : ReadBytes Unit Json := do let v ← ok readChar; pure (charValue v)

/-- How each scalar is read. -/
def readScalar : Scalar → ReadBytes Unit Json
  | .int => intValue
  | .long => longValue
  | .boolean => booleanValue
  | .double => doubleValue F
  | .float => floatValue F
  | .short => shortValue
  | .byte => do let v ← ok readByte; pure (.int v.toInt8.toInt)
  | .char => unitValue
  | .bigInteger => do let v ← readBigInteger; pure (v.elim .null .string)
  | .bigDecimal => do let v ← readBigDecimal; pure (v.elim .null .string)
  | .string => do let s ← ok readNullableStringValue; pure (s.elim .null .string)
  | .byteArray => do let b ← readLenBytes; pure (bytesToValue b)
  | .localDateTime => do
    let y ← ok readInt
    let mo ← ok readByte
    let d ← ok readByte
    let h ← ok readByte
    let mi ← ok readByte
    let s ← ok readByte
    let n ← ok readInt
    pure (.string (dateText y mo d ++ 'T' :: timeText h mi s n))
  | .localDate => do
    let y ← ok readInt
    let mo ← ok readByte
    let d ← ok readByte
    pure (.string (dateText y mo d))
  | .localTime => do
    let h ← ok readByte
    let mi ← ok readByte
    let s ← ok readByte
    let n ← ok readInt
    pure (.string (timeText h mi s n))
  | .instant => do
    let epochSec ← ok readLong
    let nano ← ok readInt
    -- both steps wrap, as they do in a release build
    pure (.string (millisToIso (epochSec * 1000 + (nano / 1000000).toInt64).toInt))
  | .date => do let m ← ok readLong; pure (.string (millisToIso m.toInt))
  | .timestamp => do
    let millis ← ok readLong
    -- read past, and not shown
    let _nanos ← ok readInt
    pure (.string (millisToIso millis.toInt))
  | .enumOrdinal => do
    let o ← ok readInt
    pure (.string ("ordinal(".toList ++ intText o.toInt ++ ")".toList))
  | .intArray => readPrimArray intValue
  | .longArray => readPrimArray longValue
  | .doubleArray => readPrimArray (doubleValue F)
  | .floatArray => readPrimArray (floatValue F)
  | .shortArray => readPrimArray shortValue
  | .booleanArray => readPrimArray booleanValue
  | .charArray => readPrimArray unitValue

/-- The constants of `Enum<Name:C0,C1,...>`. -/
def enumConstants (typeName : Text) : Option (List Text) := do
  let args ← typeArgs "Enum<".toList typeName
  if ':' ∈ args then some (((args.dropWhile (· != ':')).drop 1).splitOn ',') else none

/-- The name of the constant an ordinal stands for, else the ordinal itself. -/
def enumValue (typeName : Text) (ordinal : Int32) : Json :=
  let name := if ordinal.toInt < 0 then none else
    (enumConstants typeName).bind fun cs => cs[ordinal.toInt.toNat]?
  name.elim (.int ordinal.toInt) .string

/-- A value with no inner value to stop at: read whole, or not at all. -/
def decodeScalar (typeName : Text) : ReadBytes Unit Json :=
  match scalarOfName typeName with
  | some s => readScalar F s
  | none =>
    if "Enum<".toList.isPrefixOf typeName then do
      let ordinal ← ok readInt
      pure (enumValue typeName ordinal)
    else throw ()

end Scalars

/-! ### Composite values -/

/-- A protobuf pattern: the field that names the message class, the one that holds its bytes,
    and how the class is resolved. -/
structure ProtoPattern where
  classField : Text
  bytesField : Text
  resolve : Text

/-- The configured protobuf decoding: the patterns, the message types bound to class names, and the
    decoding of a message of a named type by the descriptor pool, none where it fails. -/
structure ProtoContext where
  patterns : List ProtoPattern
  bindings : List (Text × Text)
  decodeMessage : Text → Bytes → Option Text

/-- What stands before and after the last `c`. -/
def splitLast (c : Char) (t : Text) : Option (Text × Text) :=
  match t.reverse.dropWhile (· != c) with
  | [] => none
  | _ :: before => some (before.reverse, (t.reverse.takeWhile (· != c)).reverse)

/-- `package.Outer$Message` as `package.Message`. -/
def resolveAuto (className : Text) : Option Text := do
  let (outer, message) ← splitLast '$' className
  let (package, _) ← splitLast '.' outer
  pure (package ++ '.' :: message)

/-- The type a class name is resolved to: the name itself by the rule `direct`, by any other rule as
    by `auto`. -/
def resolveType (className resolve : Text) : Option Text :=
  if resolve = "direct".toList then some className else resolveAuto className

/-- The message of a class: of the type bound to it when that decodes the bytes, else of the type
    the rule resolves it to.  (The fields of a POJO are decoded without a path, so no override by
    path applies.) -/
def ProtoContext.decode (ctx : ProtoContext) (className : Text) (bytes : Bytes) (resolve : Text) :
    Option Text :=
  ((ctx.bindings.lookup className).bind fun type => ctx.decodeMessage type bytes).orElse fun _ =>
    (resolveType className resolve).bind fun type => ctx.decodeMessage type bytes

/-- How a value is decoded: by its type name and, for a POJO, its layout. -/
abbrev FieldDecoder := Text → Option PojoInfo → ReadBytes Json Json

/-- The partial array of a length-prefixed list whose decoding stopped at `failed`, with `rest`
    elements left unread. -/
def stoppedAt (items : List Json) (failed : Json) (rest : Nat) : Json :=
  .array (items ++ failed ::
    if rest > 0 then
      [.string ("[not decoded: ".toList ++ natText rest ++ " more elements]".toList)]
    else [])

/-- The elements of a length-prefixed list, `items` of which are read and `left` are not. -/
def decodeElements (readOne : ReadBytes Json Json) (items : List Json) :
    Nat → ReadBytes Json Json
  | 0 => pure (.array items)
  | left + 1 => do
    let v ← readOne.mapError fun failed => stoppedAt items failed left
    decodeElements readOne (items ++ [v]) left

/-- The length prefix of a list or array, at most `limit`. -/
def readSize (limit : Int) (typeName : Text) : ReadBytes Json Nat := do
  let n ← readInt.mapError fun _ => undecodable typeName
  if 0 ≤ n.toInt ∧ n.toInt ≤ limit then pure n.toInt.toNat else throw (undecodable typeName)

/-- `StringArraySerializer`: the length, then each element as a `StringValue`, nulls included. -/
def decodeStringArray : ReadBytes Json Json := do
  let len ← readSize 100000 "String[]".toList
  let readOne : ReadBytes Json Json := do
    let s ← readNullableStringValue.mapError fun _ => undecodable "String".toList
    pure (s.elim .null .string)
  decodeElements readOne [] len

/-- One element of a `GenericArraySerializer` array: a present flag, then the element. -/
def decodeArrayElement (dec : FieldDecoder) (elemType : Text) (nested : Option PojoInfo) :
    ReadBytes Json Json := do
  let present ← readBoolean.mapError fun _ => undecodable elemType
  if present then dec elemType nested else pure .null

/-- The element type of `List<...>` or `Array<...>`. -/
def elementType (t : Text) : Text :=
  (((stripPrefix "List<".toList t).orElse fun _ => stripPrefix "Array<".toList t).bind
    (stripSuffix ['>'])).getD ['?']

/-- A length-prefixed `List<T>` or `Array<T>`. -/
def decodeListField (dec : FieldDecoder) (t : Text) (nested : Option PojoInfo) :
    ReadBytes Json Json := do
  let elemType := elementType t
  let size ← readSize 1000000 t
  let readOne := if "Array<".toList.isPrefixOf t then decodeArrayElement dec elemType nested
    else dec elemType nested
  decodeElements readOne [] size

/-- The name a tuple field has in a marker. -/
def tupleFieldName (i : Nat) : Text := 'f' :: natText i

/-- The fields of a tuple from the `i`-th on, after `items`.  Once one cannot be decoded, every
    later one is marked. -/
def decodeTupleFields (dec : FieldDecoder) : Nat → List Json → List Text → ReadBytes Json Json
  | _, items, [] => pure (.array items)
  | i, items, t :: ts => do
    let v ← (dec (trim t) none).mapError fun failed =>
      .array (items ++ failed :: ts.map fun _ => notDecodedAfter (tupleFieldName i))
    decodeTupleFields dec (i + 1) (items ++ [v]) ts

/-- `TupleSerializer`: the fields back to back, no null flags. -/
def decodeTuple (dec : FieldDecoder) (t : Text) : ReadBytes Json Json :=
  match typeArgs "Tuple<".toList t with
  | none => throw (undecodable t)
  | some inner => decodeTupleFields dec 0 [] (splitTopLevel inner)

/-- What decoding the fields of a POJO has gathered. -/
structure PojoState where
  obj : List (Text × Json)
  protoClass : Option Text
  protoBytes : Option Bytes

section Pojo

variable (proto : Option ProtoContext)

/-- Whether some pattern satisfies `p`. -/
def anyPattern (p : ProtoPattern → Bool) : Bool := proto.any fun ctx => ctx.patterns.any p

/-- The bytes of a field a protobuf pattern captures. -/
def captureProtoBytes (field : PojoField) (st : PojoState) : ReadBytes Json (Json × PojoState) := do
  let bytes ← readLenBytes.mapError fun _ => undecodable field.typeName
  pure (.string ("[".toList ++ natText bytes.length ++ " bytes]".toList),
    { st with protoBytes := some bytes })

/-- What a decoded field leaves behind for the protobuf patterns: its text, when one of them
    takes the message class from it. -/
def captureProtoClass (name : Text) (v : Json) (st : PojoState) : PojoState :=
  match v with
  | .string s =>
    if anyPattern proto (·.classField = name) then { st with protoClass := some s } else st
  | _ => st

/-- One POJO field: a null flag, then, when not null, the field serializer's bytes.  A byte[]
    field named by a pattern is captured, and so is the pattern's class-name field. -/
def decodePojoField (dec : FieldDecoder) (field : PojoField) (st : PojoState) :
    ReadBytes Json (Json × PojoState) := do
  let isNull ← readBoolean.mapError fun _ => undecodable field.typeName
  if isNull then pure (.null, st)
  else if field.typeName = "byte[]".toList ∧ anyPattern proto (·.bytesField = field.name) then
    captureProtoBytes field st
  else do
    let v ← dec field.typeName field.nestedPojo
    pure (v, captureProtoClass proto field.name v st)

/-- The object once its fields are read: the captured bytes decoded against the captured class
    name. -/
def applyProto (st : PojoState) : Json :=
  match proto, st.protoClass, st.protoBytes with
  | some ctx, some cn, some bytes =>
    let resolve := (ctx.patterns.head?.map (·.resolve)).getD "auto".toList
    match ctx.decode cn bytes resolve with
    | some decoded =>
      let bytesField := (ctx.patterns.head?.map (·.bytesField)).getD "protoBytes".toList
      .object (objInsert bytesField (.string decoded) st.obj)
    | none => .object st.obj
  | _, _, _ => .object st.obj

/-- The object when `name` was lost: it holds what was read of it, and every later field its
    marker. -/
def markLost (name : Text) (failed : Json) (later : List PojoField) (st : PojoState) : PojoState :=
  let obj := objInsert name failed st.obj
  { st with obj := later.foldl (fun obj f => objInsert f.name (notDecodedAfter name) obj) obj }

/-- The fields of a `NO_SUBCLASS` POJO, in the snapshot's order. -/
def decodePojoFields (dec : FieldDecoder) : PojoState → List PojoField → ReadBytes Json Json
  | st, [] => pure (applyProto proto st)
  | st, f :: fs => do
    let (v, st) ← (decodePojoField proto dec f st).mapError fun failed =>
      applyProto proto (markLost f.name failed fs st)
    decodePojoFields dec { st with obj := objInsert f.name v st.obj } fs

/-- The rest of a POJO once its flags byte is read.  A subclass instance is written by the
    subclass's own serializer, which this layout does not describe. -/
def decodePojoBody (dec : FieldDecoder) (flags : UInt8) (info : PojoInfo) : ReadBytes Json Json :=
  if flags &&& 1 != 0 then pure .null
  else if flags &&& 4 != 0 then do
    let class? ← attempt readUtf
    throw (undecodable ("subclass ".toList ++ class?.getD "?".toList ++ " of ".toList
      ++ info.shortName))
  else if flags &&& 8 != 0 then do
    let tag ← attempt readByte
    throw (undecodable ("registered subclass #".toList
      ++ (tag.map fun t => natText t.toNat).getD "?".toList ++ " of ".toList ++ info.shortName))
  else decodePojoFields proto dec ⟨[], none, none⟩ info.fields

/-- A POJO: the flags byte (after a `NullableSerializer` not-null byte, if there is one), then
    each field. -/
def decodePojoWith (dec : FieldDecoder) (info : PojoInfo) : ReadBytes Json Json := do
  let flags ← readByte.mapError fun _ => undecodable info.shortName
  if flags = 0 then do
    let flags ← readByte.mapError fun _ => undecodable info.shortName
    decodePojoBody proto dec flags info
  else decodePojoBody proto dec flags info

end Pojo

/-- Whether a type name is one of the containers that pass the layout on to their elements. -/
def isContainer (t : Text) : Bool :=
  "List<".toList.isPrefixOf t || "Array<".toList.isPrefixOf t || "Nullable<".toList.isPrefixOf t
    || "Map<".toList.isPrefixOf t

section Field

variable (F : FloatText) (proto : Option ProtoContext)

/-- `NullableSerializer`: a null flag, then the value when not null. -/
def decodeNullable (dec : FieldDecoder) (t : Text) (nested : Option PojoInfo) :
    ReadBytes Json Json := do
  let isNull ← readBoolean.mapError fun _ => undecodable t
  if isNull then pure .null else dec ((typeArgs "Nullable<".toList t).getD ['?']) nested

/-- `decode_field` without a POJO layout of its own: dispatch on the type name. -/
def decodeByName (dec : FieldDecoder) (t : Text) (nested : Option PojoInfo) : ReadBytes Json Json :=
  if t = "String[]".toList then decodeStringArray
  else if "Tuple<".toList.isPrefixOf t then decodeTuple dec t
  else if "List<".toList.isPrefixOf t || "Array<".toList.isPrefixOf t then
    decodeListField dec t nested
  else if "Nullable<".toList.isPrefixOf t then decodeNullable dec t nested
  else (decodeScalar F t).mapError fun _ => undecodable t

/-- `decode_field`, with the decoder of the parts as an argument. -/
def decodeFieldWith (dec : FieldDecoder) (t : Text) (nested : Option PojoInfo) :
    ReadBytes Json Json :=
  match nested with
  | some info => if isContainer t then decodeByName F dec t nested else decodePojoWith proto dec info
  | none => decodeByName F dec t none

/-- `decode_field` cut at a depth of recursion. -/
def decodeFieldFuel : Nat → FieldDecoder
  | 0 => fun t _ => throw (undecodable t)
  | depth + 1 => decodeFieldWith F proto (decodeFieldFuel depth)

/-- More than the depth of recursion a type and its layout can take. -/
def decodeWeight (t : Text) (nested : Option PojoInfo) : Nat := t.length + nestedWeight nested

/-- Decode a single value of serializer type `t`.  `nested` is the layout when the type is a
    POJO, or a list, array or nullable of one. -/
def decodeField (t : Text) (nested : Option PojoInfo) : ReadBytes Json Json :=
  decodeFieldFuel F proto (decodeWeight t nested + 1) t nested

/-- Read a POJO value. -/
def decodePojo (info : PojoInfo) : ReadBytes Json Json :=
  decodePojoWith proto (decodeField F proto) info

end Field

end FlinkExplorer
