import FlinkExplorer.Flink.RoundTrip
import FlinkExplorer.Parser.DisplayText

namespace FlinkExplorer

open Lib Lib.Read

/-!
# A value that is decoded is within the size limits

`Flink.RoundTrip` decodes every value within the limits.  Here the converse: on the bytes of a
value the decoder succeeds only if the value is within them (`withinLimits_of_decodeField`), so
that whatever it returns for Flink's bytes is what the value looks like.
-/

/-! ### Names a class file can hold -/

/-- An enum constant's name. -/
def isConstantName (name : Text) : Bool := isJavaName name && !name.contains '"'

mutual

/-- Whether the names of a serializer are ones Java can give: the constants of an enum and the
    fields of a POJO are distinct identifiers. -/
def Ser.isJava : Ser → Bool
  | .enum _ constants =>
    constants.all isConstantName && decide constants.Nodup && constants.length < 65536
  | .tuple fields => tupleIsJava fields
  | .list elem => elem.isJava
  | .array elem => elem.isJava
  | .nullable elem => elem.isJava
  | .map key value => key.isJava && value.isJava
  | .pojo _ fields => fieldsAreJava fields && decide (fieldNames fields).Nodup
  | _ => true

def tupleIsJava : List Ser → Bool
  | [] => true
  | s :: ss => s.isJava && tupleIsJava ss

def fieldsAreJava : List SerField → Bool
  | [] => true
  | f :: fs => f.isJava && fieldsAreJava fs

def SerField.isJava : SerField → Bool
  | .mk name s => isFieldName name && s.isJava

/-- The names of the fields. -/
def fieldNames : List SerField → List Text
  | [] => []
  | f :: fs => f.name :: fieldNames fs

end

section Exact

variable {F : FloatText} {proto : Option ProtoContext}

/-! ### Lengths -/

theorem length_of_readSize {limit : Int} {n : Nat} (hn : n < 2 ^ 31) {t : Text} {rest : Bytes}
    {pos size : Nat} {r : Cursor UInt8}
    (h : readSize limit t ⟨writeLength n ++ rest, pos⟩ = (.ok size, r)) :
    (n : Int) ≤ limit ∧ size = n ∧ r = ⟨rest, pos + (writeLength n).length⟩ := by
  have hread : Reads (readInt.mapError fun _ => undecodable t) (writeLength n) (Int32.ofNat n) :=
    (reads_readInt _).mapError _
  rw [readSize, bind_ok (hread rest pos), toInt_ofNat_length hn] at h
  by_cases hlimit : 0 ≤ (n : Int) ∧ (n : Int) ≤ limit
  · rw [if_pos hlimit] at h
    obtain ⟨hsize, hr⟩ := Prod.mk.inj h
    have hsize : ((n : Int).toNat) = size := Except.ok.inj hsize
    exact ⟨hlimit.2, by omega, hr.symm⟩
  · rw [if_neg hlimit] at h
    cases h

theorem length_of_readPrimArray {α : Type} {readOne : ReadBytes Unit Json} {write : α → Bytes}
    {xs : JavaList α} {rest : Bytes} {pos : Nat} {j : Json} {r : Cursor UInt8}
    (h : readPrimArray readOne ⟨writeList write xs ++ rest, pos⟩ = (.ok j, r)) :
    xs.items.length ≤ 1000000 := by
  have hlen := reads_readLength xs.items.length (xs.items.flatMap write ++ rest) pos
  rw [writeList, List.append_assoc, readPrimArray, bind_ok hlen,
    toInt_ofNat_length xs.length_lt] at h
  by_contra hbeyond
  rw [if_neg (by omega)] at h
  cases h

theorem length_of_readLenBytes {bs : JavaList UInt8} {rest : Bytes} {pos : Nat} {b : Bytes}
    {r : Cursor UInt8}
    (h : readLenBytes ⟨writeLength bs.items.length ++ bs.items ++ rest, pos⟩ = (.ok b, r)) :
    bs.items.length ≤ 10000000 := by
  have hlen := reads_readLength bs.items.length (bs.items ++ rest) pos
  rw [List.append_assoc, readLenBytes, bind_ok hlen, toInt_ofNat_length bs.length_lt] at h
  by_contra hbeyond
  rw [if_neg (by omega)] at h
  cases h

/-- A big integer beyond the limit is not read. -/
theorem byteLength_of_readBigInteger {v : Option JavaBigInteger} {rest : Bytes} {pos : Nat}
    {j : Option Text} {r : Cursor UInt8}
    (h : readBigInteger ⟨writeBigInteger v ++ rest, pos⟩ = (.ok j, r)) :
    ∀ b ∈ v, b.byteLength ≤ maxBigIntegerBytes := by
  have hsmall (n : Int) (hn : byteLength n ≤ 8192) : byteLength n ≤ maxBigIntegerBytes := hn
  rintro b rfl
  cases b with
  | zero => exact hsmall 0 (by decide)
  | one => exact hsmall 1 (by decide)
  | ten => exact hsmall 10 (by decide)
  | of n hlt =>
    have hpos : 0 < byteLength n := Nat.succ_pos _
    have htoInt := toInt_ofNat_length hlt
    have hbytes : writeBigInteger (some (.of n hlt)) ++ rest
        = writeLength (byteLength n + 4) ++ (twosComplement n ++ rest) := List.append_assoc _ _ _
    rw [hbytes, readBigInteger, bind_ok (reads_readLength (byteLength n + 4) _ pos),
      if_neg (by omega), if_neg (by omega), if_neg (by omega), if_neg (by omega)] at h
    by_contra hbeyond
    have hbeyond : ¬ byteLength n ≤ maxBigIntegerBytes := hbeyond
    rw [if_neg (by omega)] at h
    cases h

/-- A scalar that is read is within the limits. -/
theorem Scalar.withinLimits_of_read {s : Scalar} {v : s.Val} {rest : Bytes} {pos : Nat} {j : Json}
    {r : Cursor UInt8} (h : readScalar F s ⟨s.encode v ++ rest, pos⟩ = (.ok j, r)) :
    s.WithinLimits v := by
  match s, v with
  | .bigInteger, v =>
    obtain ⟨w, r', hw, -⟩ := bind_eq_ok h
    exact byteLength_of_readBigInteger hw
  | .bigDecimal, (v : Option JavaBigDecimal) =>
    obtain ⟨w, r', hw, -⟩ := bind_eq_ok h
    obtain ⟨u, r'', hu, -⟩ := bind_eq_ok hw
    rintro d rfl
    have hbytes : Scalar.encode .bigDecimal (some d) ++ rest
        = writeBigInteger (some d.unscaled) ++ (writeInt d.scale ++ rest) :=
      List.append_assoc _ _ _
    rw [hbytes] at hu
    exact byteLength_of_readBigInteger hu _ rfl
  | .byteArray, v =>
    obtain ⟨w, r', hw, -⟩ := bind_eq_ok h
    exact length_of_readLenBytes hw
  | .intArray, _ | .longArray, _ | .doubleArray, _ | .floatArray, _ | .shortArray, _
  | .booleanArray, _ | .charArray, _ => exact length_of_readPrimArray h
  | .int, _ | .long, _ | .boolean, _ | .double, _ | .float, _ | .short, _ | .byte, _ | .char, _
  | .string, _ | .localDateTime, _ | .localDate, _ | .localTime, _ | .instant, _ | .date, _
  | .timestamp, _ | .enumOrdinal, _ => trivial

/-! ### Composites -/

/-- Elements that are read one after the other are each within the limits. -/
theorem elements_of_decodeElements {α : Type} {readOne : ReadBytes Json Json}
    {write : α → Bytes} {P : α → Prop} {render : α → Json}
    (hreads : ∀ x, P x → Reads readOne (write x) (render x)) (xs : List α)
    (hexact : ∀ x ∈ xs, ∀ rest pos j r, readOne ⟨write x ++ rest, pos⟩ = (.ok j, r) → P x)
    {items : List Json} {rest : Bytes} {pos : Nat} {j : Json} {r : Cursor UInt8}
    (h : decodeElements readOne items xs.length ⟨xs.flatMap write ++ rest, pos⟩ = (.ok j, r)) :
    ∀ x ∈ xs, P x := by
  induction xs generalizing items pos with
  | nil => exact fun x hx => absurd hx List.not_mem_nil
  | cons x xs ih =>
    rw [List.flatMap_cons, List.append_assoc, List.length_cons, decodeElements] at h
    obtain ⟨w, r', hw, hlater⟩ := bind_eq_ok h
    have hx := hexact x List.mem_cons_self _ _ _ _ (mapError_ok.mp hw)
    have hr := (hreads x hx).mapError (fun failed => stoppedAt items failed xs.length)
      (xs.flatMap write ++ rest) pos
    obtain ⟨-, rfl⟩ := Prod.mk.inj (hw.symm.trans hr)
    have hxs := ih (fun y hy => hexact y (List.mem_cons_of_mem x hy)) hlater
    exact fun y hy => (List.mem_cons.mp hy).elim (fun h => h ▸ hx) (hxs y)

theorem option_of_read {α : Type} {p : ReadBytes Json Json} {write : α → Bytes} {P : α → Prop}
    (isNull : Bool) (x : Option α)
    (hexact : ∀ v ∈ x, ∀ rest pos j r, p ⟨write v ++ rest, pos⟩ = (.ok j, r) → P v)
    {marker : Json} {rest : Bytes} {pos : Nat} {j : Json} {r : Cursor UInt8}
    (h : (do
        let b ← readBoolean.mapError fun _ => marker
        if b = isNull then pure .null else p : ReadBytes Json Json)
      ⟨writeOption isNull write x ++ rest, pos⟩ = (.ok j, r)) : ∀ v ∈ x, P v := by
  rintro v rfl
  have hflag := (reads_readBoolean (!isNull)).mapError (fun _ => marker) (write v ++ rest) pos
  rw [writeOption, List.append_assoc, bind_ok hflag, if_neg (by simp)] at h
  exact hexact v rfl _ _ _ _ h

/-- A POJO field that is read, captured for a protobuf pattern or not, is within the limits. -/
theorem withinLimits_of_pojoField {name : Text} {s : Ser} {f : PojoField}
    (hf : (SerField.mk name s).isNamed proto f = true) (x : Option s.Val) {st : PojoState}
    (hexact : ∀ v ∈ x, s.isNamed proto f.typeName f.nestedPojo = true → ∀ rest pos j r,
      decodeField F proto f.typeName f.nestedPojo ⟨s.encode v ++ rest, pos⟩ = (.ok j, r) →
        s.WithinLimits v) {rest : Bytes} {pos : Nat} {w : Json × PojoState} {r : Cursor UInt8}
    (h : decodePojoField proto (decodeField F proto) f st
      ⟨writeOption true s.encode x ++ rest, pos⟩ = (.ok w, r)) : ∀ v ∈ x, s.WithinLimits v := by
  rintro v rfl
  have hflag := (reads_readBoolean false).mapError (fun _ => undecodable f.typeName)
    (s.encode v ++ rest) pos
  have hbytes : writeOption true s.encode (some v) ++ rest
      = writeBoolean false ++ (s.encode v ++ rest) := List.append_assoc _ _ _
  rw [hbytes, decodePojoField, bind_ok hflag, if_neg (by decide)] at h
  rw [SerField.isNamed, Bool.and_eq_true] at hf
  obtain ⟨-, hf⟩ := hf
  by_cases hcaptured : f.typeName = "byte[]".toList ∧ anyPattern proto (·.bytesField = f.name)
  · rw [if_pos hcaptured] at hf h
    obtain rfl := Ser.eq_of_isByteArray hf
    obtain ⟨b, r', hb, -⟩ := bind_eq_ok h
    exact length_of_readLenBytes (mapError_ok.mp hb)
  · rw [if_neg hcaptured] at hf h
    obtain ⟨j, r', hj, -⟩ := bind_eq_ok h
    exact hexact v rfl hf _ _ _ _ hj

mutual

/-- A value that is decoded is within the limits. -/
theorem withinLimits_of_decodeField (s : Ser) (t : Text) (nested : Option PojoInfo)
    (hs : s.isNamed proto t nested = true) (hj : s.isJava = true) (v : s.Val) (rest : Bytes)
    (pos : Nat) (j : Json) (r : Cursor UInt8)
    (h : decodeField F proto t nested ⟨s.encode v ++ rest, pos⟩ = (.ok j, r)) :
    s.WithinLimits v := by
  -- The limits are what the decoder tests in front of each part; an induction on the serializer.
  match s, v with
  | .scalar s, v =>
    simp only [Ser.isNamed, Bool.and_eq_true, Bool.or_eq_true, beq_iff_eq,
      Option.isNone_iff_eq_none] at hs
    obtain ⟨rfl, rfl | ⟨⟨rfl, -⟩, -⟩⟩ := hs
    · rw [decodeField_scalar] at h
      exact Scalar.withinLimits_of_read (mapError_ok.mp h)
    · trivial
  | .enum className constants, (v : Fin constants.length) =>
    simp only [Ser.isJava, Bool.and_eq_true, decide_eq_true_eq] at hj
    exact Nat.lt_trans v.isLt (Nat.lt_trans hj.2 (by decide))
  | .stringArray, (v : JavaList (Option JavaString)) =>
    simp only [Ser.isNamed, Bool.and_eq_true, beq_iff_eq, Option.isNone_iff_eq_none] at hs
    obtain ⟨rfl, rfl⟩ := hs
    rw [decodeField_none, decodeByName_stringArray] at h
    obtain ⟨size, r', hsize, -⟩ := bind_eq_ok h
    have hbytes : Ser.encode .stringArray v ++ rest
        = writeLength v.items.length ++ (v.items.flatMap writeString ++ rest) :=
      List.append_assoc _ _ _
    rw [hbytes] at hsize
    -- the count that was read is the one that was written, and it was let through
    have hlen := (length_of_readSize v.length_lt hsize).1
    have hlen : v.items.length ≤ 100000 := by omega
    exact hlen
  | .tuple fields, v =>
    rw [Ser.isNamed, Bool.and_eq_true, Option.isNone_iff_eq_none, Option.any_eq_true] at hs
    obtain ⟨rfl, inner, hargs, hfields⟩ := hs
    rw [decodeField_none, decodeByName_tuple F _ none hargs] at h
    exact withinLimits_of_decodeTuple fields _ hfields hj v 0 [] rest pos j r h
  | .list elem, (v : JavaList elem.Val) =>
    rw [Ser.isNamed, Bool.and_eq_true] at hs
    rw [decodeField_container F proto (isContainer_list hs.1), decodeByName_list F _ nested hs.1]
      at h
    obtain ⟨size, r', hsize, helems⟩ := bind_eq_ok h
    have hbytes : Ser.encode (.list elem) v ++ rest
        = writeLength v.items.length ++ (v.items.flatMap elem.encode ++ rest) :=
      List.append_assoc _ _ _
    rw [hbytes] at hsize
    obtain ⟨hlen, rfl, rfl⟩ := length_of_readSize v.length_lt hsize
    have hlen : v.items.length ≤ 1000000 := by omega
    refine ⟨hlen, elements_of_decodeElements (fun x hx => reads_decodeField elem _ nested hs.2 x hx)
      v.items (fun x _ => withinLimits_of_decodeField elem _ nested hs.2 hj x) helems⟩
  | .array elem, (v : JavaList (Option elem.Val)) =>
    rw [Ser.isNamed, Bool.and_eq_true] at hs
    rw [decodeField_container F proto (isContainer_array hs.1), decodeByName_array F _ nested hs.1]
      at h
    obtain ⟨size, r', hsize, helems⟩ := bind_eq_ok h
    have hbytes : Ser.encode (.array elem) v ++ rest
        = writeLength v.items.length ++ (v.items.flatMap (writeOption false elem.encode) ++ rest) :=
      List.append_assoc _ _ _
    rw [hbytes] at hsize
    obtain ⟨hlen, rfl, rfl⟩ := length_of_readSize v.length_lt hsize
    have hlen : v.items.length ≤ 1000000 := by omega
    rw [decodeArrayElement_eq] at helems
    refine ⟨hlen, elements_of_decodeElements (P := fun x => ∀ y ∈ x, elem.WithinLimits y)
      (fun x hx => reads_option false x
        (fun y hy => reads_decodeField elem _ nested hs.2 y (hx y hy)) _)
      v.items (fun x _ rest pos j r hx => ?_) helems⟩
    -- a null needs no limit, any other element is decoded
    exact option_of_read false x
      (fun y _ => withinLimits_of_decodeField elem _ nested hs.2 hj y) hx
  | .nullable elem, (v : Option elem.Val) =>
    rw [Ser.isNamed, Bool.and_eq_true] at hs
    rw [decodeField_container F proto (isContainer_nullable hs.1),
      decodeByName_nullable F _ nested hs.1] at h
    exact option_of_read true v
      (fun y _ => withinLimits_of_decodeField elem _ nested hs.2 hj y) h
  | .pojo className fields, (v : Option (PojoVal fields)) =>
    rw [Ser.isNamed, Bool.and_eq_true, Bool.not_eq_true', Option.any_eq_true] at hs
    obtain ⟨hname, info, rfl, hfields⟩ := hs
    rw [decodeField_pojo F proto hname] at h
    rw [Ser.isJava, Bool.and_eq_true] at hj
    -- only a POJO that is not null has fields to be within limits
    rintro vs rfl
    have hflags := (reads_readByte 2).mapError (fun _ => undecodable info.shortName)
      (encodePojo fields vs ++ rest) pos
    have hbytes : Ser.encode (.pojo className fields) (some vs) ++ rest
        = [2] ++ (encodePojo fields vs ++ rest) := rfl
    rw [hbytes, decodePojo, decodePojoWith, bind_ok hflags] at h
    exact withinLimits_of_decodePojo fields _ hfields hj.1 vs ⟨[], none, none⟩ rest _ j r h
  | .map _ _, v =>
    -- maps and classes that are not known decode to a marker, which is an error
    rw [decodeField_container F proto (isContainer_map hs),
      decodeByName_unknown F _ nested (isUnknownType_map hs)] at h
    cases h
  | .other _ _, v =>
    rw [Ser.isNamed, Bool.and_eq_true, Option.isNone_iff_eq_none] at hs
    rw [hs.1, decodeField_none, decodeByName_unknown F _ none hs.2] at h
    cases h

/-- The same for the fields of a tuple: each is read before the next is. -/
theorem withinLimits_of_decodeTuple (fields : List Ser) (ts : List Text)
    (hs : tupleIsNamed proto fields ts = true) (hj : tupleIsJava fields = true)
    (vs : TupleVal fields) (i : Nat) (items : List Json) (rest : Bytes) (pos : Nat) (j : Json)
    (r : Cursor UInt8)
    (h : decodeTupleFields (decodeField F proto) i items ts ⟨encodeTuple fields vs ++ rest, pos⟩
      = (.ok j, r)) : tupleWithinLimits fields vs := by
  match fields, ts, vs with
  | [], [], _ => trivial
  | s :: ss, t :: ts, vs =>
    rw [tupleIsNamed, Bool.and_eq_true] at hs
    rw [tupleIsJava, Bool.and_eq_true] at hj
    have hbytes : encodeTuple (s :: ss) vs ++ rest
        = s.encode vs.1 ++ (encodeTuple ss vs.2 ++ rest) := List.append_assoc _ _ _
    rw [hbytes, decodeTupleFields] at h
    obtain ⟨w, r', hw, hlater⟩ := bind_eq_ok h
    have hw := mapError_ok.mp hw
    have hlimit := withinLimits_of_decodeField s (trim t) none hs.1 hj.1 vs.1 _ pos w r' hw
    have hexact := reads_decodeField (F := F) s (trim t) none hs.1 vs.1 hlimit
      (encodeTuple ss vs.2 ++ rest) pos
    obtain ⟨-, rfl⟩ := Prod.mk.inj (hw.symm.trans hexact)
    exact ⟨hlimit, withinLimits_of_decodeTuple ss ts hs.2 hj.2 vs.2 _ _ rest _ j r hlater⟩

/-- The same for the fields of a POJO. -/
theorem withinLimits_of_decodePojo (fields : List SerField) (infos : List PojoField)
    (hs : fieldsAreNamed proto fields infos = true) (hj : fieldsAreJava fields = true)
    (vs : PojoVal fields) (st : PojoState) (rest : Bytes) (pos : Nat) (j : Json) (r : Cursor UInt8)
    (h : decodePojoFields proto (decodeField F proto) st infos
      ⟨encodePojo fields vs ++ rest, pos⟩ = (.ok j, r)) : pojoWithinLimits fields vs := by
  match fields, infos, vs with
  | [], [], _ => trivial
  | .mk name s :: fs, f :: infos, vs =>
    rw [fieldsAreNamed, Bool.and_eq_true] at hs
    rw [fieldsAreJava, Bool.and_eq_true, SerField.isJava, Bool.and_eq_true] at hj
    have hbytes : encodePojo (.mk name s :: fs) vs ++ rest
        = writeOption true s.encode vs.1 ++ (encodePojo fs vs.2 ++ rest) := List.append_assoc _ _ _
    rw [hbytes, decodePojoFields] at h
    obtain ⟨w, r', hw, hlater⟩ := bind_eq_ok h
    have hw := mapError_ok.mp hw
    have hlimit : ∀ v ∈ vs.1, s.WithinLimits v :=
      withinLimits_of_pojoField hs.1 vs.1
        (fun v _ hnamed => withinLimits_of_decodeField s f.typeName f.nestedPojo hnamed hj.1.2 v) hw
    have hexact := reads_decodePojoField (F := F) hs.1 vs.1 hlimit st
      (fun v hmem hnamed => reads_decodeField s f.typeName f.nestedPojo hnamed v (hlimit v hmem))
      (encodePojo fs vs.2 ++ rest) pos
    obtain ⟨-, rfl⟩ := Prod.mk.inj (hw.symm.trans hexact)
    exact ⟨hlimit, withinLimits_of_decodePojo fs infos hs.2 hj.2 vs.2 _ rest _ j r hlater⟩

end

end Exact

end FlinkExplorer
