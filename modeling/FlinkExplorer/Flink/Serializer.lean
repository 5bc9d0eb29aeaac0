import FlinkExplorer.Parser.Value

namespace FlinkExplorer

open Lib

/-!
# Flink's serializers

What Flink writes, as opposed to what the explorer reads: a serializer tree, the Java values it
serializes and the bytes it writes for them.

* `Ser` — a serializer: a scalar, an enum, a composite of others, a POJO, or a class this
  development knows nothing of;
* `Ser.Val` — the values of a serializer, by recursion on it.  Lengths are Java's, and their
  bound is part of the value;
* `Ser.encode` — the bytes of a value;
* `Ser.typeName` and `Ser.layout` — how the explorer names the serializer;
* `Ser.render` — what the decoder's own texts make of the value; `Flink.Reference` writes the same
  down apart from them.
-/

/-- A Java array or list: its length is an `int`. -/
structure JavaList (α : Type) where
  items : List α
  length_lt : items.length < 2 ^ 31

/-- A Java string, by its UTF-16 units: `StringValue` writes its length plus one, an `int`. -/
structure JavaString where
  units : List UInt16
  length_lt : units.length + 1 < 2 ^ 31

/-- A `java.math.BigInteger`.  The serializer tells the shared constants `ZERO`, `ONE` and `TEN`
    from other objects of the same value. -/
inductive JavaBigInteger
  | zero
  | one
  | ten
  | of (v : Int) (length_lt : byteLength v + 4 < 2 ^ 31)

/-- The integer a `BigInteger` is. -/
def JavaBigInteger.value : JavaBigInteger → Int
  | zero => 0
  | one => 1
  | ten => 10
  | of v _ => v

/-- `BigInteger.toByteArray`'s length. -/
def JavaBigInteger.byteLength (b : JavaBigInteger) : Nat := Lib.byteLength b.value

/-- A `java.math.BigDecimal`: `unscaled × 10^-scale`. -/
structure JavaBigDecimal where
  unscaled : JavaBigInteger
  scale : Int32

/-- A `java.time.LocalDate`, as it is stored. -/
structure JavaDate where
  year : Int32
  month : UInt8
  day : UInt8

/-- A `java.time.LocalTime`, as it is stored. -/
structure JavaTime where
  hour : UInt8
  minute : UInt8
  second : UInt8
  nano : Int32

/-- A `java.time.Instant` whose milliseconds since the epoch fit in 64 bits. -/
structure JavaInstant where
  seconds : Int64
  nano : Int32
  nano_nonneg : 0 ≤ nano.toInt
  nano_lt : nano.toInt < 1000000000
  fits : -2 ^ 63 ≤ seconds.toInt * 1000 + nano.toInt / 1000000 ∧
    seconds.toInt * 1000 + nano.toInt / 1000000 < 2 ^ 63

/-- The milliseconds since the epoch of an instant, rounded down. -/
def JavaInstant.millis (t : JavaInstant) : Int := t.seconds.toInt * 1000 + t.nano.toInt / 1000000

/-- The Java values of a scalar type.  A floating point number is given by its bits. -/
def Scalar.Val : Scalar → Type
  | .int => Int32
  | .long => Int64
  | .boolean => Bool
  | .double => UInt64
  | .float => UInt32
  | .short => Int16
  | .byte => Int8
  | .char => UInt16
  | .bigInteger => Option JavaBigInteger
  | .bigDecimal => Option JavaBigDecimal
  | .string => Option JavaString
  | .byteArray => JavaList UInt8
  | .localDateTime => JavaDate × JavaTime
  | .localDate => JavaDate
  | .localTime => JavaTime
  | .instant => JavaInstant
  | .date => Int64
  | .timestamp => Int64 × Int32
  | .enumOrdinal => Int32
  | .intArray => JavaList Int32
  | .longArray => JavaList Int64
  | .doubleArray => JavaList UInt64
  | .floatArray => JavaList UInt32
  | .shortArray => JavaList Int16
  | .booleanArray => JavaList Bool
  | .charArray => JavaList UInt16

mutual

/-- A serializer. -/
inductive Ser
  | scalar (s : Scalar)
  | enum (className : Text) (constants : List Text)
  | stringArray
  | tuple (fields : List Ser)
  | list (elem : Ser)
  | array (elem : Ser)
  | nullable (elem : Ser)
  | map (key value : Ser)
  | pojo (className : Text) (fields : List SerField)
  | other (snapshotClass : Text) (payload : Bytes)

/-- A POJO field and its serializer. -/
inductive SerField
  | mk (name : Text) (ser : Ser)

end

namespace SerField

def name : SerField → Text
  | mk n _ => n

def ser : SerField → Ser
  | mk _ s => s

end SerField

mutual

/-- The values of a serializer.  A class that is not known writes any bytes. -/
def Ser.Val : Ser → Type
  | .scalar s => s.Val
  | .enum _ constants => Fin constants.length
  | .stringArray => JavaList (Option JavaString)
  | .tuple fields => TupleVal fields
  | .list elem => JavaList elem.Val
  | .array elem => JavaList (Option elem.Val)
  | .nullable elem => Option elem.Val
  | .map key value => JavaList (key.Val × Option value.Val)
  | .pojo _ fields => Option (PojoVal fields)
  | .other _ _ => Bytes

/-- The values of a tuple's fields. -/
def TupleVal : List Ser → Type
  | [] => Unit
  | s :: ss => s.Val × TupleVal ss

/-- The values of a POJO's fields, each of which may be null. -/
def PojoVal : List SerField → Type
  | [] => Unit
  | f :: fs => Option f.Val × PojoVal fs

/-- The values of a POJO field. -/
def SerField.Val : SerField → Type
  | .mk _ s => s.Val

end

/-! ### The bytes Flink writes -/

/-- `DataOutput.writeInt` of a length. -/
def writeLength (n : Nat) : Bytes := writeInt (Int32.ofNat n)

/-- The length of a list, then its elements. -/
def writeList {α : Type} (write : α → Bytes) (xs : JavaList α) : Bytes :=
  writeLength xs.items.length ++ xs.items.flatMap write

/-- `StringValue.writeString`, null included. -/
def writeString (s : Option JavaString) : Bytes := writeNullableString (s.map (·.units))

/-- `BigIntSerializer.writeBigInteger`: the shared constants have lengths of their own. -/
def writeBigInteger : Option JavaBigInteger → Bytes
  | none => writeLength 0
  | some .zero => writeLength 1
  | some .one => writeLength 2
  | some .ten => writeLength 3
  | some (.of v _) => writeLength (byteLength v + 4) ++ twosComplement v

/-- `BigDecSerializer.serialize`. -/
def writeBigDecimal : Option JavaBigDecimal → Bytes
  | none => writeBigInteger none
  | some d => writeBigInteger (some d.unscaled) ++ writeInt d.scale

/-- `LocalDateSerializer.serialize`. -/
def writeDate (d : JavaDate) : Bytes := writeInt d.year ++ [d.month, d.day]

/-- `LocalTimeSerializer.serialize`. -/
def writeTime (t : JavaTime) : Bytes := [t.hour, t.minute, t.second] ++ writeInt t.nano

/-- The bytes of a scalar. -/
def Scalar.encode : (s : Scalar) → s.Val → Bytes
  | .int, v => writeInt v
  | .long, v => writeLong v
  | .boolean, v => writeBoolean v
  | .double, (v : UInt64) => writeLong v.toInt64
  | .float, (v : UInt32) => writeInt v.toInt32
  | .short, v => writeShort v
  | .byte, (v : Int8) => [v.toUInt8]
  | .char, v => writeChar v
  | .bigInteger, v => writeBigInteger v
  | .bigDecimal, v => writeBigDecimal v
  | .string, v => writeString v
  | .byteArray, (bs : JavaList UInt8) => writeLength bs.items.length ++ bs.items
  | .localDateTime, (v : JavaDate × JavaTime) => writeDate v.1 ++ writeTime v.2
  | .localDate, v => writeDate v
  | .localTime, v => writeTime v
  | .instant, (v : JavaInstant) => writeLong v.seconds ++ writeInt v.nano
  | .date, v => writeLong v
  | .timestamp, (v : Int64 × Int32) => writeLong v.1 ++ writeInt v.2
  | .enumOrdinal, v => writeInt v
  | .intArray, vs => writeList writeInt vs
  | .longArray, vs => writeList writeLong vs
  | .doubleArray, vs => writeList (fun v : UInt64 => writeLong v.toInt64) vs
  | .floatArray, vs => writeList (fun v : UInt32 => writeInt v.toInt32) vs
  | .shortArray, vs => writeList writeShort vs
  | .booleanArray, vs => writeList writeBoolean vs
  | .charArray, vs => writeList writeChar vs

/-- A value that may be null, after a byte that says so; `isNull` is the byte of a null. -/
def writeOption {α : Type} (isNull : Bool) (write : α → Bytes) : Option α → Bytes
  | none => writeBoolean isNull
  | some v => writeBoolean (!isNull) ++ write v

mutual

/-- The bytes of a value. -/
def Ser.encode : (s : Ser) → s.Val → Bytes
  | .scalar s, v => s.encode v
  | .enum _ _, (ordinal : Fin _) => writeLength ordinal.val
  | .stringArray, vs => writeList writeString vs
  | .tuple fields, v => encodeTuple fields v
  | .list elem, vs => writeList elem.encode vs
  | .array elem, vs => writeList (writeOption false elem.encode) vs
  | .nullable elem, v => writeOption true elem.encode v
  | .map key value, vs =>
    writeList (fun e : key.Val × Option value.Val =>
      key.encode e.1 ++ writeOption true value.encode e.2) vs
  | .pojo _ fields, (v : Option (PojoVal fields)) =>
    v.elim [1] fun vs => 2 :: encodePojo fields vs
  | .other _ _, (bytes : Bytes) => bytes

/-- `TupleSerializer`: the fields back to back. -/
def encodeTuple : (fields : List Ser) → TupleVal fields → Bytes
  | [], _ => []
  | s :: ss, vs => s.encode vs.1 ++ encodeTuple ss vs.2

/-- `PojoSerializer`: each field after its null flag. -/
def encodePojo : (fields : List SerField) → PojoVal fields → Bytes
  | [], _ => []
  | f :: fs, vs => writeOption true f.encode vs.1 ++ encodePojo fs vs.2

/-- The bytes of a POJO field that is not null. -/
def SerField.encode : (f : SerField) → f.Val → Bytes
  | .mk _ s, v => s.encode v

end

/-! ### How the explorer names a serializer -/

/-- The class name past its package. -/
def simpleName (className : Text) : Text := afterLast '.' className

mutual

/-- The type name of a serializer, in the vocabulary of `decodeField`. -/
def Ser.typeName : Ser → Text
  | .scalar s => s.name
  | .enum className constants =>
    if constants.isEmpty then "Enum<".toList ++ simpleName className ++ ['>']
    else "Enum<".toList ++ simpleName className ++ ':' :: joinCommas constants ++ ['>']
  | .stringArray => "String[]".toList
  | .tuple fields => "Tuple<".toList ++ joinCommas (typeNames fields) ++ ['>']
  | .list elem => "List<".toList ++ elem.typeName ++ ['>']
  | .array elem => "Array<".toList ++ elem.typeName ++ ['>']
  | .nullable elem => "Nullable<".toList ++ elem.typeName ++ ['>']
  | .map key value => "Map<".toList ++ key.typeName ++ ',' :: value.typeName ++ ['>']
  | .pojo className _ => simpleName className
  | .other snapshotClass _ =>
    replaceText ['$'] ['.'] (replaceText "Snapshot".toList [] (simpleName snapshotClass))

/-- The type names of a tuple's fields. -/
def typeNames : List Ser → List Text
  | [] => []
  | s :: ss => s.typeName :: typeNames ss

end

mutual

/-- The layout that goes with the type name: that of a POJO, or of the POJO a list, array,
    nullable or map holds. -/
def Ser.layout : Ser → Option PojoInfo
  | .pojo className fields => some (.mk className (simpleName className) (fieldInfos fields))
  | .list elem => elem.layout
  | .array elem => elem.layout
  | .nullable elem => elem.layout
  | .map _ value => value.layout
  | _ => none

/-- The fields of a layout. -/
def fieldInfos : List SerField → List PojoField
  | [] => []
  | f :: fs => f.info :: fieldInfos fs

/-- A field of a layout. -/
def SerField.info : SerField → PojoField
  | .mk name s => .mk name s.typeName s.layout

end

/-! ### What a value looks like -/

section Render

variable (F : FloatText) (proto : Option ProtoContext)

/-- A possibly null string as JSON; an unpaired surrogate shows as U+FFFD. -/
def renderString (s : Option JavaString) : Json :=
  s.elim .null fun s => .string (textOfUnits s.units)

/-- A possibly null `BigInteger`, in decimal. -/
def renderBigInteger (v : Option JavaBigInteger) : Json :=
  v.elim .null fun v => .string (intText v.value)

/-- A possibly null `BigDecimal`, as Java prints it. -/
def renderBigDecimal (v : Option JavaBigDecimal) : Json :=
  v.elim .null fun v => .string (bigDecimalToString (intText v.unscaled.value) v.scale.toInt)

def renderDate (d : JavaDate) : Text := dateText d.year d.month d.day

def renderTime (t : JavaTime) : Text := timeText t.hour t.minute t.second t.nano

/-- A list as a JSON array. -/
def renderList {α : Type} (render : α → Json) (xs : JavaList α) : Json :=
  .array (xs.items.map render)

/-- What a scalar looks like. -/
def Scalar.render : (s : Scalar) → s.Val → Json
  | .int, (v : Int32) => .int v.toInt
  | .long, (v : Int64) => .int v.toInt
  | .boolean, (v : Bool) => .bool v
  | .double, (v : UInt64) => .float (F.fromF64 v)
  | .float, (v : UInt32) => .float (F.fromF32 v)
  | .short, (v : Int16) => .int v.toInt
  | .byte, (v : Int8) => .int v.toInt
  | .char, v => charValue v
  | .bigInteger, v => renderBigInteger v
  | .bigDecimal, v => renderBigDecimal v
  | .string, v => renderString v
  | .byteArray, (bs : JavaList UInt8) => bytesToValue bs.items
  | .localDateTime, (v : JavaDate × JavaTime) => .string (renderDate v.1 ++ 'T' :: renderTime v.2)
  | .localDate, v => .string (renderDate v)
  | .localTime, v => .string (renderTime v)
  | .instant, (v : JavaInstant) => .string (millisToIso v.millis)
  | .date, (v : Int64) => .string (millisToIso v.toInt)
  | .timestamp, (v : Int64 × Int32) => .string (millisToIso v.1.toInt)
  | .enumOrdinal, (v : Int32) =>
    .string ("ordinal(".toList ++ intText v.toInt ++ ")".toList)
  | .intArray, vs => renderList (fun v : Int32 => .int v.toInt) vs
  | .longArray, vs => renderList (fun v : Int64 => .int v.toInt) vs
  | .doubleArray, vs => renderList (fun v : UInt64 => .float (F.fromF64 v)) vs
  | .floatArray, vs => renderList (fun v : UInt32 => .float (F.fromF32 v)) vs
  | .shortArray, vs => renderList (fun v : Int16 => .int v.toInt) vs
  | .booleanArray, vs => renderList (fun v : Bool => .bool v) vs
  | .charArray, vs => renderList charValue vs

mutual

/-- What a value looks like.  A map inside another value, and a class that is not known, have
    no form of their own. -/
def Ser.render : (s : Ser) → s.Val → Json
  | .scalar s, v => s.render F v
  | .enum _ constants, (ordinal : Fin constants.length) => .string (constants.get ordinal)
  | .stringArray, vs => renderList renderString vs
  | .tuple fields, v => .array (renderTuple fields v)
  | .list elem, vs => renderList elem.render vs
  | .array elem, vs => renderList (fun v : Option elem.Val => v.elim .null elem.render) vs
  | .nullable elem, (v : Option elem.Val) => v.elim .null elem.render
  | .map key value, _ => undecodable (Ser.map key value).typeName
  | .pojo _ fields, (v : Option (PojoVal fields)) =>
    v.elim .null fun vs => renderPojo fields ⟨[], none, none⟩ vs
  | .other snapshotClass payload, _ => undecodable (Ser.other snapshotClass payload).typeName

/-- The fields of a tuple. -/
def renderTuple : (fields : List Ser) → TupleVal fields → List Json
  | [], _ => []
  | s :: ss, vs => s.render vs.1 :: renderTuple ss vs.2

/-- The object of a POJO: one member for each field, and the message its bytes decode to when a
    protobuf pattern applies. -/
def renderPojo : (fields : List SerField) → PojoState → PojoVal fields → Json
  | [], st, _ => applyProto proto st
  | f :: fs, st, vs =>
    let (v, st) := vs.1.elim (.null, st) fun v => f.render st v
    renderPojo fs { st with obj := objInsert f.name v st.obj } vs.2

/-- A POJO field that is not null, and what the protobuf patterns take from it. -/
def SerField.render : (f : SerField) → PojoState → f.Val → Json × PojoState
  | .mk name (.scalar .byteArray), st, (bs : JavaList UInt8) =>
    if anyPattern proto (·.bytesField = name) then
      (.string ("[".toList ++ natText bs.items.length ++ " bytes]".toList),
        { st with protoBytes := some bs.items })
    else (bytesToValue bs.items, captureProtoClass proto name (bytesToValue bs.items) st)
  | .mk name s, st, v => (s.render v, captureProtoClass proto name (s.render v) st)

end

theorem SerField.render_byteArray (name : Text) (st : PojoState) (bs : JavaList UInt8) :
    (SerField.mk name (.scalar .byteArray)).render F proto st bs
      = if anyPattern proto (·.bytesField = name) then
          (.string ("[".toList ++ natText bs.items.length ++ " bytes]".toList),
            { st with protoBytes := some bs.items })
        else (bytesToValue bs.items, captureProtoClass proto name (bytesToValue bs.items) st) := rfl

theorem SerField.render_of_ne (name : Text) (st : PojoState) {s : Ser}
    (h : s ≠ .scalar .byteArray) (v : s.Val) :
    (SerField.mk name s).render F proto st v
      = (s.render F proto v, captureProtoClass proto name (s.render F proto v) st) := by
  cases s with
  | scalar s =>
    cases s with
    | byteArray => exact absurd rfl h
    | _ => rfl
  | _ => rfl

end Render

end FlinkExplorer
