import FlinkExplorer.Flink.Named
import FlinkExplorer.Flink.Reference
import FlinkExplorer.Parser.BigNumber

namespace FlinkExplorer

open Lib Lib.Read

/-!
# The value decoder undoes Flink's encoding

For every serializer of the decoder's grammar, nested to any depth:

* `reads_decodeField` — under a name and a layout that stand for a serializer, the decoder
  reads the bytes of a value exactly, whatever follows them, and returns what the value looks
  like;
* `decodeField_encode` — under the serializer's own name it returns the reference rendering of the
  value, on a reader at any position, and the error on every value cut short.

The induction is on the serializer.  Each composite reads its parts with the decoder of their
own type name (`Flink.Named`), so what has to be shown at every step is that the pieces of the
encoding line up.
-/

/-! ### Coded size limits -/

/-- The size limits of the decoder for scalars. -/
def Scalar.WithinLimits : (s : Scalar) → s.Val → Prop
  | .bigInteger, (v : Option JavaBigInteger) => ∀ b ∈ v, b.byteLength ≤ maxBigIntegerBytes
  | .bigDecimal, (v : Option JavaBigDecimal) => ∀ d ∈ v, d.unscaled.byteLength ≤ maxBigIntegerBytes
  | .byteArray, (bs : JavaList UInt8) => bs.items.length ≤ 10000000
  | .intArray, (vs : JavaList Int32) => vs.items.length ≤ 1000000
  | .longArray, (vs : JavaList Int64) => vs.items.length ≤ 1000000
  | .doubleArray, (vs : JavaList UInt64) => vs.items.length ≤ 1000000
  | .floatArray, (vs : JavaList UInt32) => vs.items.length ≤ 1000000
  | .shortArray, (vs : JavaList Int16) => vs.items.length ≤ 1000000
  | .booleanArray, (vs : JavaList Bool) => vs.items.length ≤ 1000000
  | .charArray, (vs : JavaList UInt16) => vs.items.length ≤ 1000000
  | _, _ => True

mutual

/-- The size limits of the decoder.  An enum's ordinal is an `int`; a map inside another value,
    and a class that is not known, are beyond any. -/
def Ser.WithinLimits : (s : Ser) → s.Val → Prop
  | .scalar s, v => s.WithinLimits v
  | .stringArray, (vs : JavaList (Option JavaString)) => vs.items.length ≤ 100000
  | .tuple fields, v => tupleWithinLimits fields v
  | .list elem, (vs : JavaList elem.Val) =>
    vs.items.length ≤ 1000000 ∧ ∀ v ∈ vs.items, elem.WithinLimits v
  | .array elem, (vs : JavaList (Option elem.Val)) =>
    vs.items.length ≤ 1000000 ∧ ∀ x ∈ vs.items, ∀ v ∈ x, elem.WithinLimits v
  | .nullable elem, (x : Option elem.Val) => ∀ v ∈ x, elem.WithinLimits v
  | .pojo _ fields, (x : Option (PojoVal fields)) => ∀ vs ∈ x, pojoWithinLimits fields vs
  | .enum _ _, (ordinal : Fin _) => ordinal.val < 2 ^ 31
  | .map _ _, _ => False
  | .other _ _, _ => False

/-- The size limits of the fields of a tuple. -/
def tupleWithinLimits : (fields : List Ser) → TupleVal fields → Prop
  | [], _ => True
  | s :: ss, vs => s.WithinLimits vs.1 ∧ tupleWithinLimits ss vs.2

/-- The size limits of the fields of a POJO. -/
def pojoWithinLimits : (fields : List SerField) → PojoVal fields → Prop
  | [], _ => True
  | f :: fs, vs => (∀ v ∈ vs.1, f.WithinLimits v) ∧ pojoWithinLimits fs vs.2

def SerField.WithinLimits : (f : SerField) → f.Val → Prop
  | .mk _ s, v => s.WithinLimits v

end

/-! ### Lengths -/

section Lengths

theorem toInt_ofNat_length {n : Nat} (h : n < 2 ^ 31) : (Int32.ofNat n).toInt = n :=
  Int32.toInt_ofNat_of_lt h

theorem reads_ok {β : Type} {p : ReadBytes ParseError β} {used : Bytes} {v : β}
    (h : Reads p used v) : Reads (ok p) used v := h.mapError _

theorem reads_readLength (n : Nat) : Reads (ok readInt) (writeLength n) (Int32.ofNat n) :=
  reads_ok (reads_readInt _)

theorem reads_readSize {limit : Int} {n : Nat} (h : n < 2 ^ 31) (hn : (n : Int) ≤ limit)
    (t : Text) : Reads (readSize limit t) (writeLength n) n := by
  refine ((reads_readInt _).mapError _).bind_nil ?_
  rw [toInt_ofNat_length h, if_pos ⟨Int.natCast_nonneg n, hn⟩]
  exact Reads.pure _

theorem reads_readLenBytes (bs : JavaList UInt8) (h : bs.items.length ≤ 10000000) :
    Reads readLenBytes (writeLength bs.items.length ++ bs.items) bs.items := by
  refine (reads_readLength _).bind ?_
  rw [toInt_ofNat_length bs.length_lt, if_pos (by omega)]
  exact reads_ok (reads_readBytes rfl)

theorem reads_readPrimArray {α : Type} {readOne : ReadBytes Unit Json} {write : α → Bytes}
    {render : α → Json} (hone : ∀ x, Reads readOne (write x) (render x)) (xs : JavaList α)
    (h : xs.items.length ≤ 1000000) :
    Reads (readPrimArray readOne) (writeList write xs) (renderList render xs) := by
  refine (reads_readLength _).bind ?_
  rw [toInt_ofNat_length xs.length_lt, if_pos (by omega)]
  exact (Reads.many xs.items fun x _ => hone x).bind_nil (Reads.pure _)

end Lengths

/-! ### Scalars -/

section Scalars

variable (F : FloatText)

theorem reads_readBigInteger_of {v : Int} (hlt : byteLength v + 4 < 2 ^ 31)
    (hlen : byteLength v ≤ maxBigIntegerBytes) :
    Reads readBigInteger (writeBigInteger (some (.of v hlt))) (some (intText v)) := by
  have hpos : 0 < byteLength v := Nat.succ_pos _
  have hbytes := reads_ok (reads_readBytes (length_twosComplement v))
  unfold readBigInteger writeBigInteger
  refine (reads_readLength (byteLength v + 4)).bind ?_
  have htoInt := toInt_ofNat_length hlt
  have hsub : (Int32.ofNat (byteLength v + 4)).toInt.toNat - 4 = byteLength v := by omega
  rw [if_neg (by omega), if_neg (by omega), if_neg (by omega), if_neg (by omega), hsub,
    if_pos ⟨by omega, hlen⟩]
  refine hbytes.bind_nil ?_
  rw [twosComplementToDecimal_eq, beInt_twosComplement]
  exact Reads.pure _

theorem reads_readBigInteger (v : Option JavaBigInteger)
    (h : ∀ b ∈ v, b.byteLength ≤ maxBigIntegerBytes) :
    Reads readBigInteger (writeBigInteger v) (v.map fun b => intText b.value) := by
  have h0 : intText JavaBigInteger.zero.value = "0".toList := by decide
  have h1 : intText JavaBigInteger.one.value = "1".toList := by decide
  have h10 : intText JavaBigInteger.ten.value = "10".toList := by decide
  match v with
  | none => exact (reads_readLength 0).bind_nil (Reads.pure _)
  | some .zero =>
    rw [Option.map_some, h0]
    exact (reads_readLength 1).bind_nil (Reads.pure _)
  | some .one =>
    rw [Option.map_some, h1]
    exact (reads_readLength 2).bind_nil (Reads.pure _)
  | some .ten =>
    rw [Option.map_some, h10]
    exact (reads_readLength 3).bind_nil (Reads.pure _)
  | some (.of v hlt) =>
    have hlen : (JavaBigInteger.of v hlt).byteLength ≤ maxBigIntegerBytes := h _ rfl
    exact reads_readBigInteger_of hlt hlen

theorem reads_readBigDecimal (v : Option JavaBigDecimal)
    (h : ∀ d ∈ v, d.unscaled.byteLength ≤ maxBigIntegerBytes) :
    Reads readBigDecimal (writeBigDecimal v)
      (v.map fun d => bigDecimalToString (intText d.unscaled.value) d.scale.toInt) := by
  match v with
  | none => exact (reads_readBigInteger none (by simp)).bind_nil (Reads.pure _)
  | some d =>
    have hunscaled := reads_readBigInteger (some d.unscaled) (by simpa using h d rfl)
    exact hunscaled.bind ((reads_ok (reads_readInt d.scale)).bind_nil (Reads.pure _))

theorem reads_readString (s : Option JavaString) :
    Reads readNullableStringValue (writeString s) (s.map fun s => textOfUnits s.units) := by
  have hlen : ∀ us, s.map (·.units) = some us → us.length + 1 < 2 ^ 32 := by
    intro us hus
    obtain ⟨str, rfl, rfl⟩ := Option.map_eq_some_iff.mp hus
    have := str.length_lt
    omega
  have h := reads_readNullableStringValue hlen
  rwa [Option.map_map] at h

/-- The bits of a double, as `long` bits and back. -/
theorem reads_doubleValue (v : UInt64) :
    Reads (doubleValue F) (writeLong v.toInt64) (.float (F.fromF64 v)) := by
  refine (reads_ok (reads_readLong _)).bind_nil ?_
  rw [show v.toInt64.toUInt64 = v by simp]
  exact Reads.pure _

theorem reads_floatValue (v : UInt32) :
    Reads (floatValue F) (writeInt v.toInt32) (.float (F.fromF32 v)) := by
  refine (reads_ok (reads_readInt _)).bind_nil ?_
  rw [show v.toInt32.toUInt32 = v by simp]
  exact Reads.pure _

/-- An instant that fits in 64 bits of milliseconds is computed without wrapping around. -/
theorem JavaInstant.toInt_millis (t : JavaInstant) :
    (t.seconds * 1000 + (t.nano / 1000000).toInt64).toInt = t.millis := by
  have hfit := t.fits
  have hn := t.nano_nonneg
  have hlt := t.nano_lt
  have hdiv : (t.nano / 1000000).toInt = t.nano.toInt / 1000000 := by
    rw [Int32.toInt_div, show (1000000 : Int32).toInt = 1000000 from rfl,
      Int.tdiv_eq_ediv_of_nonneg hn, Int.bmod_eq_of_le (by omega) (by omega)]
  rw [Int64.toInt_add, Int64.toInt_mul, Int32.toInt_toInt64, hdiv,
    show (1000 : Int64).toInt = 1000 from rfl, Int.bmod_add_bmod,
    Int.bmod_eq_of_le (by omega) (by omega)]
  rfl

/-- **Scalars.** -/
theorem reads_readScalar (s : Scalar) (v : s.Val) (h : s.WithinLimits v) :
    Reads (readScalar F s) (s.encode v) (s.render F v) := by
  -- The primitive reads, each with the write it undoes.
  have hint (v : Int32) : Reads (ok readInt) (writeInt v) v := reads_ok (reads_readInt v)
  have hlong (v : Int64) : Reads (ok readLong) (writeLong v) v := reads_ok (reads_readLong v)
  have hbyte (b : UInt8) : Reads (ok readByte) [b] b := reads_ok (reads_readByte b)
  have hshort (v : Int16) : Reads (ok readShort) (writeShort v) v := reads_ok (reads_readShort v)
  have hbool (v : Bool) : Reads (ok readBoolean) (writeBoolean v) v :=
    reads_ok (reads_readBoolean v)
  have hchar (u : UInt16) : Reads (ok readChar) (writeChar u) u := reads_ok (reads_readChar u)
  match s, v with
  | .int, v => exact (hint v).bind_nil (Reads.pure _)
  | .long, v => exact (hlong v).bind_nil (Reads.pure _)
  | .boolean, v => exact (hbool v).bind_nil (Reads.pure _)
  | .double, v => exact reads_doubleValue F v
  | .float, v => exact reads_floatValue F v
  | .short, v => exact (hshort v).bind_nil (Reads.pure _)
  | .byte, (v : Int8) =>
    refine (hbyte v.toUInt8).bind_nil ?_
    rw [show v.toUInt8.toInt8 = v by simp]
    exact Reads.pure _
  | .char, v => exact (hchar v).bind_nil (Reads.pure _)
  | .bigInteger, v =>
    refine (reads_readBigInteger v h).bind_nil ?_
    cases v <;> exact Reads.pure _
  | .bigDecimal, v =>
    refine (reads_readBigDecimal v h).bind_nil ?_
    cases v <;> exact Reads.pure _
  | .string, v =>
    refine (reads_ok (reads_readString v)).bind_nil ?_
    cases v <;> exact Reads.pure _
  | .byteArray, v => exact (reads_readLenBytes v h).bind_nil (Reads.pure _)
  | .localDateTime, (⟨⟨y, mo, d⟩, ⟨hh, mi, s, n⟩⟩ : JavaDate × JavaTime) =>
    have hbytes : Scalar.encode .localDateTime (⟨⟨y, mo, d⟩, ⟨hh, mi, s, n⟩⟩ : JavaDate × JavaTime)
        = writeInt y ++ ([mo] ++ ([d] ++ ([hh] ++ ([mi] ++ ([s] ++ writeInt n))))) := by
      simp [Scalar.encode, writeDate, writeTime]
    rw [hbytes]
    exact (hint y).bind ((hbyte mo).bind ((hbyte d).bind ((hbyte hh).bind ((hbyte mi).bind
      ((hbyte s).bind ((hint n).bind_nil (Reads.pure _)))))))
  | .localDate, (⟨y, mo, d⟩ : JavaDate) =>
    exact (hint y).bind ((hbyte mo).bind ((hbyte d).bind_nil (Reads.pure _)))
  | .localTime, (⟨hh, mi, s, n⟩ : JavaTime) =>
    exact (hbyte hh).bind ((hbyte mi).bind ((hbyte s).bind ((hint n).bind_nil (Reads.pure _))))
  | .instant, (t : JavaInstant) =>
    refine (hlong t.seconds).bind ((hint t.nano).bind_nil ?_)
    rw [t.toInt_millis]
    exact Reads.pure _
  | .date, v => exact (hlong v).bind_nil (Reads.pure _)
  | .timestamp, (v : Int64 × Int32) =>
    exact (hlong v.1).bind ((hint v.2).bind_nil (Reads.pure _))
  | .enumOrdinal, v => exact (hint v).bind_nil (Reads.pure _)
  | .intArray, v => exact reads_readPrimArray (fun x => (hint x).bind_nil (Reads.pure _)) v h
  | .longArray, v => exact reads_readPrimArray (fun x => (hlong x).bind_nil (Reads.pure _)) v h
  | .doubleArray, v => exact reads_readPrimArray (reads_doubleValue F) v h
  | .floatArray, v => exact reads_readPrimArray (reads_floatValue F) v h
  | .shortArray, v => exact reads_readPrimArray (fun x => (hshort x).bind_nil (Reads.pure _)) v h
  | .booleanArray, v => exact reads_readPrimArray (fun x => (hbool x).bind_nil (Reads.pure _)) v h
  | .charArray, v => exact reads_readPrimArray (fun x => (hchar x).bind_nil (Reads.pure _)) v h

end Scalars

/-! ### Composites -/

section Composites

variable {F : FloatText} {proto : Option ProtoContext}

theorem reads_decodeElements {α : Type} {readOne : ReadBytes Json Json} {write : α → Bytes}
    {render : α → Json} (xs : List α) (hone : ∀ x ∈ xs, Reads readOne (write x) (render x))
    (items : List Json) :
    Reads (decodeElements readOne items xs.length) (xs.flatMap write)
      (.array (items ++ xs.map render)) := by
  induction xs generalizing items with
  | nil =>
    rw [List.map_nil, List.append_nil]
    exact Reads.pure _
  | cons x xs ih =>
    have hx := (hone x List.mem_cons_self).mapError
      (fun failed => stoppedAt items failed xs.length)
    have hxs := ih (fun y hy => hone y (List.mem_cons_of_mem x hy)) (items ++ [render x])
    rw [List.append_assoc, List.singleton_append] at hxs
    exact hx.bind hxs

theorem reads_sized {α : Type} {readOne : ReadBytes Json Json} {write : α → Bytes}
    {render : α → Json} (xs : JavaList α) {limit : Int} (hlen : (xs.items.length : Int) ≤ limit)
    (hone : ∀ x ∈ xs.items, Reads readOne (write x) (render x)) (t : Text) :
    Reads (do let size ← readSize limit t; decodeElements readOne [] size)
      (writeList write xs) (renderList render xs) :=
  (reads_readSize xs.length_lt hlen t).bind (reads_decodeElements xs.items hone [])

theorem reads_decodeStringArray (xs : JavaList (Option JavaString))
    (h : xs.items.length ≤ 100000) :
    Reads decodeStringArray (writeList writeString xs) (renderList renderString xs) := by
  refine reads_sized xs (by omega) (fun s _ => ?_) _
  refine ((reads_readString s).mapError _).bind_nil ?_
  cases s <;> exact Reads.pure _

/-- An optional value behind its null flag. -/
theorem reads_option {α : Type} {p : ReadBytes Json Json} {write : α → Bytes}
    {render : α → Json} (isNull : Bool) (x : Option α)
    (hone : ∀ v ∈ x, Reads p (write v) (render v)) (marker : Json) :
    Reads (do
        let b ← readBoolean.mapError fun _ => marker
        if b = isNull then pure .null else p)
      (writeOption isNull write x) (x.elim .null render) := by
  cases x with
  | none =>
    refine ((reads_readBoolean isNull).mapError _).bind_nil ?_
    rw [if_pos rfl]
    exact Reads.pure _
  | some v =>
    refine ((reads_readBoolean (!isNull)).mapError _).bind ?_
    rw [if_neg (by simp)]
    exact hone v rfl

/-- An enum is read as the name of its constant. -/
theorem reads_enumValue {t : Text} (ht : "Enum<".toList.isPrefixOf t = true)
    {constants : List Text} (hconstants : enumConstants t = some constants)
    (ordinal : Fin constants.length) (hlt : ordinal.val < 2 ^ 31) :
    Reads (decodeField F proto t none) (writeLength ordinal.val)
      (.string (constants.get ordinal)) := by
  rw [decodeField_none, decodeByName_enum F _ none ht]
  refine Reads.mapError _ ((reads_readLength _).bind_nil ?_)
  have htoInt := toInt_ofNat_length hlt
  have hvalue : enumValue t (Int32.ofNat ordinal.val) = .string (constants.get ordinal) := by
    rw [enumValue, if_neg (by omega), hconstants, htoInt, Option.bind_some, Int.toNat_natCast]
    simp
  rw [hvalue]
  exact Reads.pure _

/-- An enum whose constants are not listed is read as its ordinal. -/
theorem reads_enumOrdinal {t : Text} (ht : "Enum<".toList.isPrefixOf t = true)
    (hconstants : enumConstants t = none) (v : Int32) :
    Reads (decodeField F proto t none) (writeInt v) (.int v.toInt) := by
  rw [decodeField_none, decodeByName_enum F _ none ht]
  refine Reads.mapError _ ((reads_ok (reads_readInt v)).bind_nil ?_)
  have hvalue : enumValue t v = .int v.toInt := by
    rw [enumValue, hconstants]
    simp
  rw [hvalue]
  exact Reads.pure _

/-- An element of an array, behind its presence flag. -/
theorem decodeArrayElement_eq (dec : FieldDecoder) (t : Text) (nested : Option PojoInfo) :
    decodeArrayElement dec t nested = (do
      let present ← readBoolean.mapError fun _ => undecodable t
      if present = false then pure .null else dec t nested) := by
  unfold decodeArrayElement
  congr 1
  funext present
  cases present <;> rfl

/-- A POJO field that is not null; a byte[] field may be captured for a protobuf pattern. -/
theorem reads_pojoFieldValue {name : Text} {s : Ser} {f : PojoField}
    (hf : (SerField.mk name s).isNamed proto f = true) (v : s.Val) (hv : s.WithinLimits v)
    (st : PojoState)
    (hdec : s.isNamed proto f.typeName f.nestedPojo = true →
      Reads (decodeField F proto f.typeName f.nestedPojo) (s.encode v) (s.render F proto v)) :
    Reads (if f.typeName = "byte[]".toList ∧ anyPattern proto (·.bytesField = f.name) then
        captureProtoBytes f st
      else do
        let v ← decodeField F proto f.typeName f.nestedPojo
        pure (v, captureProtoClass proto f.name v st))
      (s.encode v) ((SerField.mk name s).render F proto st v) := by
  rw [SerField.isNamed, Bool.and_eq_true, beq_iff_eq] at hf
  obtain ⟨rfl, hf⟩ := hf
  by_cases hcaptured : f.typeName = "byte[]".toList ∧ anyPattern proto (·.bytesField = f.name)
  · rw [if_pos hcaptured] at hf
    obtain rfl := Ser.eq_of_isByteArray hf
    have hrender := (SerField.render_byteArray F proto f.name st v).trans (if_pos hcaptured.2)
    rw [if_pos hcaptured]
    exact hrender ▸ ((reads_readLenBytes v hv).mapError _).bind_nil (Reads.pure _)
  · rw [if_neg hcaptured] at hf
    have hread := hdec hf
    rw [if_neg hcaptured]
    by_cases hbytes : s = .scalar .byteArray
    · subst hbytes
      -- A byte array that no pattern names.
      have htype : f.typeName = "byte[]".toList := by
        simp only [Ser.isNamed, Bool.and_eq_true, Bool.or_eq_true, beq_iff_eq] at hf
        rcases hf.2 with htype | hint
        · exact htype
        · exact absurd hint.1.1 (by decide)
      have hpattern : ¬ anyPattern proto (·.bytesField = f.name) = true :=
        fun h => hcaptured ⟨htype, h⟩
      have hrender := (SerField.render_byteArray F proto f.name st v).trans (if_neg hpattern)
      exact hrender ▸ hread.bind_nil (Reads.pure _)
    · have hrender := SerField.render_of_ne F proto f.name st hbytes v
      exact hrender ▸ hread.bind_nil (Reads.pure _)

/-- A POJO field behind its null flag. -/
theorem reads_decodePojoField {name : Text} {s : Ser} {f : PojoField}
    (hf : (SerField.mk name s).isNamed proto f = true) (x : Option s.Val)
    (hv : ∀ v ∈ x, s.WithinLimits v) (st : PojoState)
    (hdec : ∀ v ∈ x, s.isNamed proto f.typeName f.nestedPojo = true →
      Reads (decodeField F proto f.typeName f.nestedPojo) (s.encode v) (s.render F proto v)) :
    Reads (decodePojoField proto (decodeField F proto) f st) (writeOption true s.encode x)
      (x.elim (.null, st) fun v => (SerField.mk name s).render F proto st v) := by
  cases x with
  | none => exact ((reads_readBoolean true).mapError _).bind_nil (Reads.pure _)
  | some v =>
    exact ((reads_readBoolean false).mapError _).bind
      (reads_pojoFieldValue hf v (hv v rfl) st (hdec v rfl))

mutual

/-- **The decoder undoes Flink's encoding**, under every name and layout that stand for the
    serializer. -/
theorem reads_decodeField (s : Ser) (t : Text) (nested : Option PojoInfo)
    (hs : s.isNamed proto t nested = true) (v : s.Val) (hv : s.WithinLimits v) :
    Reads (decodeField F proto t nested) (s.encode v) (s.render F proto v) := by
  -- On the serializer; `isNamed` says which type text leads to its branch.
  match s, v with
  | .scalar s, v =>
    simp only [Ser.isNamed, Bool.and_eq_true, Bool.or_eq_true, beq_iff_eq,
      Option.isNone_iff_eq_none] at hs
    -- an enum without its constants is read as its ordinal
    obtain ⟨rfl, rfl | ⟨⟨rfl, henum⟩, hconstants⟩⟩ := hs
    · rw [decodeField_none, decodeByName_scalar]
      exact (reads_readScalar F s v hv).mapError _
    · exact reads_enumOrdinal henum hconstants v
  | .enum className constants, (v : Fin constants.length) =>
    simp only [Ser.isNamed, Bool.and_eq_true, Bool.or_eq_true, beq_iff_eq,
      Option.isNone_iff_eq_none, List.isEmpty_iff] at hs
    obtain ⟨⟨rfl, henum⟩, hconstants | ⟨rfl, -⟩⟩ := hs
    · exact reads_enumValue henum hconstants v hv
    · exact v.elim0
  | .stringArray, v =>
    simp only [Ser.isNamed, Bool.and_eq_true, beq_iff_eq, Option.isNone_iff_eq_none] at hs
    obtain ⟨rfl, rfl⟩ := hs
    rw [decodeField_none, decodeByName_stringArray]
    exact reads_decodeStringArray v hv
  | .tuple fields, v =>
    rw [Ser.isNamed, Bool.and_eq_true, Option.isNone_iff_eq_none, Option.any_eq_true] at hs
    obtain ⟨rfl, inner, hargs, hfields⟩ := hs
    rw [decodeField_none, decodeByName_tuple F _ none hargs]
    exact reads_decodeTupleFields fields _ hfields v hv 0 []
  | .list elem, (v : JavaList elem.Val) =>
    rw [Ser.isNamed, Bool.and_eq_true] at hs
    have hlen : v.items.length ≤ 1000000 := hv.1
    rw [decodeField_container F proto (isContainer_list hs.1), decodeByName_list F _ nested hs.1]
    exact reads_sized v (by omega)
      (fun x hx => reads_decodeField elem _ nested hs.2 x (hv.2 x hx)) _
  | .array elem, (v : JavaList (Option elem.Val)) =>
    rw [Ser.isNamed, Bool.and_eq_true] at hs
    have hlen : v.items.length ≤ 1000000 := hv.1
    rw [decodeField_container F proto (isContainer_array hs.1), decodeByName_array F _ nested hs.1]
    refine reads_sized v (by omega) (fun x hx => ?_) _
    rw [decodeArrayElement_eq]
    -- the flag of an array element is 1 where there is one, that of a nullable 0
    exact reads_option false x
      (fun y hy => reads_decodeField elem _ nested hs.2 y (hv.2 x hx y hy)) _
  | .nullable elem, (v : Option elem.Val) =>
    rw [Ser.isNamed, Bool.and_eq_true] at hs
    rw [decodeField_container F proto (isContainer_nullable hs.1),
      decodeByName_nullable F _ nested hs.1]
    exact reads_option true v (fun y hy => reads_decodeField elem _ nested hs.2 y (hv y hy)) _
  | .pojo className fields, (v : Option (PojoVal fields)) =>
    rw [Ser.isNamed, Bool.and_eq_true, Bool.not_eq_true', Option.any_eq_true] at hs
    obtain ⟨hname, info, rfl, hfields⟩ := hs
    rw [decodeField_pojo F proto hname]
    cases v with
    | none => exact ((reads_readByte 1).mapError _).bind_nil (Reads.pure _)
    | some vs =>
      have hfields := reads_decodePojoFields fields _ hfields vs (hv vs rfl) ⟨[], none, none⟩
      exact ((reads_readByte 2).mapError _).bind hfields
  | .map _ _, _ => exact hv.elim
  | .other _ _, _ => exact hv.elim

/-- The fields of a tuple, after `items`. -/
theorem reads_decodeTupleFields (fields : List Ser) (ts : List Text)
    (hs : tupleIsNamed proto fields ts = true) (vs : TupleVal fields)
    (hv : tupleWithinLimits fields vs) (i : Nat) (items : List Json) :
    Reads (decodeTupleFields (decodeField F proto) i items ts)
      (encodeTuple fields vs) (.array (items ++ renderTuple F proto fields vs)) := by
  match fields, ts, vs with
  | [], [], _ =>
    rw [renderTuple, List.append_nil]
    exact Reads.pure _
  | s :: ss, t :: ts, vs =>
    rw [tupleIsNamed, Bool.and_eq_true] at hs
    have hfield := reads_decodeField s (trim t) none hs.1 vs.1 hv.1
    have hrest := reads_decodeTupleFields ss ts hs.2 vs.2 hv.2 (i + 1)
      (items ++ [s.render F proto vs.1])
    rw [List.append_assoc, List.singleton_append] at hrest
    exact (hfield.mapError _).bind hrest

/-- The fields of a POJO, from a state of the object on. -/
theorem reads_decodePojoFields (fields : List SerField) (infos : List PojoField)
    (hs : fieldsAreNamed proto fields infos = true) (vs : PojoVal fields)
    (hv : pojoWithinLimits fields vs) (st : PojoState) :
    Reads (decodePojoFields proto (decodeField F proto) st infos)
      (encodePojo fields vs) (renderPojo F proto fields st vs) := by
  match fields, infos, vs with
  | [], [], _ => exact Reads.pure _
  | .mk name s :: fs, f :: infos, vs =>
    rw [fieldsAreNamed, Bool.and_eq_true] at hs
    have hname : name = f.name := by
      have := hs.1
      rw [SerField.isNamed, Bool.and_eq_true, beq_iff_eq] at this
      exact this.1
    have hfield := reads_decodePojoField (F := F) hs.1 vs.1 hv.1 st fun v hmem hnamed =>
      reads_decodeField s f.typeName f.nestedPojo hnamed v (hv.1 v hmem)
    subst hname
    exact (hfield.mapError _).bind (reads_decodePojoFields fs infos hs.2 vs.2 hv.2 _)

end

end Composites

/-! ### The round trip -/

section RoundTrip

variable (F : FloatText) (proto : Option ProtoContext)

/-- **Value decoding undoes Flink's encoding.**  On the bytes of a value followed by anything,
    the decoder succeeds with the reference rendering of the value and stops right after them; on a
    value cut short it fails. -/
theorem decodeField_encode (s : Ser) (hs : s.inGrammar = true) (v : s.Val)
    (hv : s.WithinLimits v) :
    (∀ rest pos, decodeField F proto s.typeName s.layout ⟨s.encode v ++ rest, pos⟩
        = (.ok (s.reference F proto v), ⟨rest, pos + (s.encode v).length⟩)) ∧
      ∀ cut tail, s.encode v = cut ++ tail → tail ≠ [] → ∀ pos, ∃ partialValue r,
        decodeField F proto s.typeName s.layout ⟨cut, pos⟩ = (.error partialValue, r) := by
  have hreads : Reads (decodeField F proto s.typeName s.layout) (s.encode v)
      (s.reference F proto v) := by
    rw [← s.render_eq_reference v]
    exact reads_decodeField s _ _ (s.isNamed_typeName proto hs) v hv
  refine ⟨hreads, fun cut tail hsplit htail pos => ?_⟩
  exact (stable_decodeField s.typeName s.layout).error_of_cut hreads hsplit htail pos

end RoundTrip

/-- A `List<Tuple<String,Long>>` field of a POJO. -/
def visitsSer : Ser :=
  .pojo "acme.Visits".toList [.mk "seen".toList (.list (.tuple [.scalar .string, .scalar .long]))]

/-- One visit: `("a", 7)`. -/
def visitsVal : visitsSer.Val :=
  let visit : TupleVal [.scalar .string, .scalar .long] :=
    (some (JavaString.mk [97] (by decide)), (7 : Int64), ())
  some (some (JavaList.mk [visit] (show 1 < 2 ^ 31 by decide)), ())

theorem withinLimits_visitsVal : visitsSer.WithinLimits visitsVal := by
  rintro vs ⟨⟩
  refine ⟨?_, trivial⟩
  rintro v ⟨⟩
  exact ⟨show 1 ≤ 1000000 by decide, fun x _ => ⟨trivial, trivial, trivial⟩⟩

/-- The round trip of a POJO with a list of tuples. -/
theorem decodeField_encode_visits :
    decodeField ⟨fun _ => none, fun _ => none⟩ none "Visits".toList visitsSer.layout
        ⟨[2, 0, 0, 0, 0, 1, 2, 97, 0, 0, 0, 0, 0, 0, 0, 7] ++ [44], 5⟩
      = (.ok (.object [("seen".toList,
          .array [.array [.string "a".toList, .number (.int 7)]])]), ⟨[44], 21⟩) ∧
    ∃ partialValue r, decodeField ⟨fun _ => none, fun _ => none⟩ none "Visits".toList
      visitsSer.layout ⟨[2, 0, 0, 0, 0, 1, 2], 5⟩ = (.error partialValue, r) :=
  have h := decodeField_encode ⟨fun _ => none, fun _ => none⟩ none visitsSer (by decide) visitsVal
    withinLimits_visitsVal
  ⟨h.1 [44] 5, h.2 [2, 0, 0, 0, 0, 1, 2] [97, 0, 0, 0, 0, 0, 0, 0, 7] rfl (by decide) 5⟩

end FlinkExplorer
