import FlinkExplorer.Flink.Exact
import FlinkExplorer.Parser.KeyText

namespace FlinkExplorer

open Lib Lib.Read

/-!
# The text of a key tells it apart

For every key type that `keyRendersInjectively` accepts:

* `Ser.isKeyOf` — the serializer a key type stands for (`exists_isKeyOf`);
* `reads_decodeKeyField` — a key within the size limits is read exactly, as `Ser.keyRender`
  shows it, and a key beyond them is not read at all (`withinLimits_of_decodeKeyField`);
* `encode_inj`, `keyRender_inj` — the bytes of a key determine it, and so does its text when no
  part of it is null;
* `decodeKey_inj` — two keys with one text are one key.

Both injectivity facts are about a key followed by anything, so that the induction goes through
the fields of a tuple.
-/

/-! ### Key types -/

mutual

/-- Whether a serializer writes the keys of a type. -/
def Ser.isKeyOf : Ser → Text → Bool
  | .scalar s, t => keyScalars.contains s && t == s.name
  | .tuple fields, t =>
    (typeArgs "Tuple<".toList t).any fun inner => fieldsAreKeysOf fields (splitTopLevel inner)
  | _, _ => false

/-- The same for the fields of a tuple. -/
def fieldsAreKeysOf : List Ser → List Text → Bool
  | [], [] => true
  | s :: ss, t :: ts => s.isKeyOf (trim t) && fieldsAreKeysOf ss ts
  | _, _ => false

end

theorem exists_isKeyOf_fuel (depth : Nat) (keyType : Text)
    (h : keyRendersInjectivelyFuel depth keyType = true) : ∃ s : Ser, s.isKeyOf keyType = true := by
  induction depth generalizing keyType with
  | zero => cases h
  | succ depth ih =>
    simp only [keyRendersInjectivelyFuel, Bool.or_eq_true] at h
    rcases h with hscalar | htuple
    · rw [List.contains_iff_mem, List.mem_map] at hscalar
      obtain ⟨s, hmem, rfl⟩ := hscalar
      exact ⟨.scalar s, by simpa [Ser.isKeyOf] using hmem⟩
    · obtain ⟨inner, hargs, hall⟩ := (Option.any_eq_true _ _).mp htuple
      have hfields (ts : List Text)
          (hts : (ts.all fun f => keyRendersInjectivelyFuel depth (trim f)) = true) :
          ∃ fields, fieldsAreKeysOf fields ts = true := by
        induction ts with
        | nil => exact ⟨[], rfl⟩
        | cons t ts iht =>
          rw [List.all_cons, Bool.and_eq_true] at hts
          obtain ⟨s, hs⟩ := ih _ hts.1
          obtain ⟨ss, hss⟩ := iht hts.2
          exact ⟨s :: ss, by rw [fieldsAreKeysOf, hs, hss]; rfl⟩
      obtain ⟨fields, hfields⟩ := hfields _ hall
      exact ⟨.tuple fields, by rw [Ser.isKeyOf, hargs, Option.any_some, hfields]⟩

/-- Every key type stands for a serializer. -/
theorem exists_isKeyOf {keyType : Text} (h : keyRendersInjectively keyType = true) :
    ∃ s : Ser, s.isKeyOf keyType = true :=
  exists_isKeyOf_fuel _ keyType h

/-! ### What a key looks like -/

section Render

variable (F : FloatText)

/-- What a scalar key looks like: a string keeps every unit. -/
def Scalar.keyRender : (s : Scalar) → s.Val → Json
  | .string, (v : Option JavaString) => v.elim .null fun s => .string (keyString s.units)
  | s, v => s.render F v

mutual

/-- What a key looks like. -/
def Ser.keyRender : (s : Ser) → s.Val → Json
  | .scalar s, v => s.keyRender F v
  | .tuple fields, v => .array (tupleKeyRender fields v)
  | s, v => s.render F none v

/-- What the fields of a tuple key look like. -/
def tupleKeyRender : (fields : List Ser) → TupleVal fields → List Json
  | [], _ => []
  | s :: ss, vs => s.keyRender vs.1 :: tupleKeyRender ss vs.2

end

/-- The text of a key: what it looks like, or its bytes when a part of it is null. -/
def Ser.keyText (s : Ser) (v : s.Val) : Text :=
  (renderKey (s.keyRender F v)).getD (opaqueKey (s.encode v))

end Render

/-! ### Reading a key -/

section Read

variable {F : FloatText}

theorem not_tuple_of_scalar (s : Scalar) : typeArgs "Tuple<".toList s.name = none := by
  cases s <;> rfl

/-- A scalar key is read by the reader of its type, a string by one that keeps every unit. -/
theorem decodeKeyFieldFuel_scalar (depth : Nat) {s : Scalar} (hs : s ≠ .string) :
    decodeKeyFieldFuel F (depth + 1) s.name
      = (readScalar F s).mapError fun _ => undecodable s.name := by
  have hname : s.name ≠ "String".toList := by
    intro h
    exact hs (Option.some.inj ((scalarOfName_name s).symm.trans (scalarOfName_eq_some.mpr h)))
  rw [decodeKeyFieldFuel, decodeKeyFieldWith, if_neg hname, not_tuple_of_scalar]
  exact decodeField_scalar F none s

theorem decodeKeyFieldFuel_string (depth : Nat) :
    decodeKeyFieldFuel F (depth + 1) Scalar.string.name = decodeKeyString := by
  have hname : Scalar.string.name = "String".toList := rfl
  rw [decodeKeyFieldFuel, decodeKeyFieldWith, if_pos hname]

theorem decodeKeyFieldFuel_tuple (depth : Nat) {t inner : Text}
    (h : typeArgs "Tuple<".toList t = some inner) :
    decodeKeyFieldFuel F (depth + 1) t
      = decodeKeyTuple (decodeKeyFieldFuel F depth) [] (splitTopLevel inner) := by
  have hname : t ≠ "String".toList := by
    rintro rfl
    cases h.symm.trans (not_tuple_of_scalar .string)
  rw [decodeKeyFieldFuel, decodeKeyFieldWith, if_neg hname, h]

theorem reads_decodeKeyString (v : Option JavaString) :
    Reads decodeKeyString (writeString v) (v.elim .null fun s => .string (keyString s.units)) := by
  have hlen : ∀ us, v.map (·.units) = some us → us.length + 1 < 2 ^ 32 := by
    intro us hus
    obtain ⟨str, rfl, rfl⟩ := Option.map_eq_some_iff.mp hus
    have := str.length_lt
    omega
  refine ((reads_readNullableStringUnits hlen).mapError _).bind_nil ?_
  cases v <;> exact Reads.pure _

theorem Scalar.reads_key (depth : Nat) (s : Scalar) (v : s.Val) (hv : s.WithinLimits v) :
    Reads (decodeKeyFieldFuel F (depth + 1) s.name) (s.encode v) (s.keyRender F v) := by
  by_cases hs : s = .string
  · subst hs
    rw [decodeKeyFieldFuel_string]
    exact reads_decodeKeyString v
  · have hrender : s.keyRender F v = s.render F v := by
      cases s <;> first | rfl | exact absurd rfl hs
    rw [decodeKeyFieldFuel_scalar depth hs, hrender]
    exact (reads_readScalar F s v hv).mapError _

/-- The parts of a tuple are shorter than the tuple. -/
theorem length_trim_lt_of_mem {t inner part : Text} (h : typeArgs "Tuple<".toList t = some inner)
    (hmem : part ∈ splitTopLevel inner) : (trim part).length < t.length := by
  have h₁ := typeArgs_length_lt h
  have h₂ := length_of_mem_splitTopLevel hmem
  have h₃ := length_trim_le part
  omega

mutual

/-- A key within the size limits is read exactly. -/
theorem reads_decodeKeyFieldFuel (s : Ser) (t : Text) (hs : s.isKeyOf t = true) (v : s.Val)
    (hv : s.WithinLimits v) (depth : Nat) (hdepth : t.length < depth) :
    Reads (decodeKeyFieldFuel F depth t) (s.encode v) (s.keyRender F v) := by
  obtain ⟨depth, rfl⟩ : ∃ d, depth = d + 1 := ⟨depth - 1, by omega⟩
  match s, v with
  | .scalar s, v =>
    simp only [Ser.isKeyOf, Bool.and_eq_true, beq_iff_eq] at hs
    obtain ⟨-, rfl⟩ := hs
    exact Scalar.reads_key depth s v hv
  | .tuple fields, v =>
    rw [Ser.isKeyOf, Option.any_eq_true] at hs
    obtain ⟨inner, hargs, hfields⟩ := hs
    rw [decodeKeyFieldFuel_tuple depth hargs]
    refine reads_decodeKeyTuple fields _ hfields v hv depth (fun part hmem => ?_) []
    have := length_trim_lt_of_mem hargs hmem
    omega

/-- The fields of a tuple key, after `items`. -/
theorem reads_decodeKeyTuple (fields : List Ser) (ts : List Text)
    (hs : fieldsAreKeysOf fields ts = true) (vs : TupleVal fields)
    (hv : tupleWithinLimits fields vs) (depth : Nat)
    (hdepth : ∀ t ∈ ts, (trim t).length < depth) (items : List Json) :
    Reads (decodeKeyTuple (decodeKeyFieldFuel F depth) items ts) (encodeTuple fields vs)
      (.array (items ++ tupleKeyRender F fields vs)) := by
  match fields, ts, vs with
  | [], [], _ =>
    rw [tupleKeyRender, List.append_nil]
    exact Reads.pure _
  | s :: ss, t :: ts, vs =>
    rw [fieldsAreKeysOf, Bool.and_eq_true] at hs
    have hfield := reads_decodeKeyFieldFuel s (trim t) hs.1 vs.1 hv.1 depth
      (hdepth t List.mem_cons_self)
    have hrest := reads_decodeKeyTuple ss ts hs.2 vs.2 hv.2 depth
      (fun u hu => hdepth u (List.mem_cons_of_mem t hu)) (items ++ [s.keyRender F vs.1])
    rw [List.append_assoc, List.singleton_append] at hrest
    exact hfield.bind hrest

end

theorem Scalar.withinLimits_of_key {depth : Nat} {s : Scalar} {v : s.Val} {rest : Bytes}
    {pos : Nat} {j : Json} {r : Cursor UInt8}
    (h : decodeKeyFieldFuel F (depth + 1) s.name ⟨s.encode v ++ rest, pos⟩ = (.ok j, r)) :
    s.WithinLimits v := by
  by_cases hs : s = .string
  · subst hs
    trivial
  · rw [decodeKeyFieldFuel_scalar depth hs] at h
    exact Scalar.withinLimits_of_read (mapError_ok.mp h)

mutual

/-- A key that is read is within the size limits. -/
theorem withinLimits_of_decodeKeyField (s : Ser) (t : Text) (hs : s.isKeyOf t = true) (v : s.Val)
    (depth : Nat) (hdepth : t.length < depth) (rest : Bytes) (pos : Nat) (j : Json)
    (r : Cursor UInt8) (h : decodeKeyFieldFuel F depth t ⟨s.encode v ++ rest, pos⟩ = (.ok j, r)) :
    s.WithinLimits v := by
  obtain ⟨depth, rfl⟩ : ∃ d, depth = d + 1 := ⟨depth - 1, by omega⟩
  match s, v with
  | .scalar s, v =>
    simp only [Ser.isKeyOf, Bool.and_eq_true, beq_iff_eq] at hs
    obtain ⟨-, rfl⟩ := hs
    exact Scalar.withinLimits_of_key h
  | .tuple fields, v =>
    rw [Ser.isKeyOf, Option.any_eq_true] at hs
    obtain ⟨inner, hargs, hfields⟩ := hs
    rw [decodeKeyFieldFuel_tuple depth hargs] at h
    refine withinLimits_of_decodeKeyTuple fields _ hfields v depth (fun part hmem => ?_) [] rest
      pos j r h
    have := length_trim_lt_of_mem hargs hmem
    omega

/-- The same for the fields of a tuple key: each is read before the next is. -/
theorem withinLimits_of_decodeKeyTuple (fields : List Ser) (ts : List Text)
    (hs : fieldsAreKeysOf fields ts = true) (vs : TupleVal fields) (depth : Nat)
    (hdepth : ∀ t ∈ ts, (trim t).length < depth) (items : List Json) (rest : Bytes) (pos : Nat)
    (j : Json) (r : Cursor UInt8)
    (h : decodeKeyTuple (decodeKeyFieldFuel F depth) items ts
      ⟨encodeTuple fields vs ++ rest, pos⟩ = (.ok j, r)) :
    tupleWithinLimits fields vs := by
  match fields, ts, vs with
  | [], [], _ => trivial
  | s :: ss, t :: ts, vs =>
    rw [fieldsAreKeysOf, Bool.and_eq_true] at hs
    have hbytes : encodeTuple (s :: ss) vs ++ rest
        = s.encode vs.1 ++ (encodeTuple ss vs.2 ++ rest) := List.append_assoc _ _ _
    rw [hbytes, decodeKeyTuple] at h
    obtain ⟨w, r', hw, hlater⟩ := bind_eq_ok h
    have hlen := hdepth t List.mem_cons_self
    have hlimit := withinLimits_of_decodeKeyField s (trim t) hs.1 vs.1 depth hlen _ pos w r' hw
    have hexact := reads_decodeKeyFieldFuel (F := F) s (trim t) hs.1 vs.1 hlimit depth hlen
      (encodeTuple ss vs.2 ++ rest) pos
    rw [hexact] at hw
    obtain ⟨hj, hr⟩ := Prod.mk.inj hw
    subst hr
    exact ⟨hlimit, withinLimits_of_decodeKeyTuple ss ts hs.2 vs.2 depth
      (fun u hu => hdepth u (List.mem_cons_of_mem t hu)) _ rest _ j r hlater⟩

end

/-- **A decoded key is read exactly**, and its text is `keyText`. -/
theorem keyText_of_decodeKey {s : Ser} {keyType : Text} {keyPojo : Option PojoInfo}
    (hinj : keyRendersInjectively keyType = true) (hs : s.isKeyOf keyType = true) {v : s.Val}
    {rest : Bytes} {txt : Text} {n : Nat}
    (h : decodeKey F (s.encode v ++ rest) keyType keyPojo = some (txt, n)) :
    s.WithinLimits v ∧ txt = s.keyText F v ∧ n = (s.encode v).length := by
  have hpojo : keyType ≠ "Pojo".toList := by
    rintro rfl
    exact absurd hinj (by decide)
  unfold decodeKey at h
  rw [if_neg hpojo, if_pos hinj] at h
  rcases hread : decodeKeyField F keyType (JavaReader.new (s.encode v ++ rest)) with ⟨j | j, r⟩
  · rw [hread] at h
    cases h
  · have hlimit := withinLimits_of_decodeKeyField s keyType hs v _ (Nat.lt_succ_self _) rest 0 j r
      hread
    have hexact := reads_decodeKeyFieldFuel (F := F) s keyType hs v hlimit _ (Nat.lt_succ_self _)
      rest 0
    obtain ⟨hj, hr⟩ := Prod.mk.inj (hread.symm.trans hexact)
    cases hj
    rw [hread, hr] at h
    simp only [Nat.zero_add, List.take_left', Option.some.injEq, Prod.mk.injEq] at h
    exact ⟨hlimit, h.1.symm, h.2.symm⟩

end Read

/-! ### The bytes of a key determine it -/

section Bytes

theorem ofNat_length_inj {n m : Nat} (hn : n < 2 ^ 31) (hm : m < 2 ^ 31)
    (h : Int32.ofNat n = Int32.ofNat m) : n = m := by
  have := congrArg Int32.toInt h
  rw [toInt_ofNat_length hn, toInt_ofNat_length hm] at this
  exact Int.ofNat_inj.mp this

theorem JavaString.ext {a b : JavaString} (h : a.units = b.units) : a = b := by
  cases a
  cases b
  cases h
  rfl

theorem writeString_inj {a b : Option JavaString} {x y : Bytes}
    (h : writeString a ++ x = writeString b ++ y) : a = b ∧ x = y := by
  have hlen (s : Option JavaString) : ∀ us, s.map (·.units) = some us → us.length + 1 < 2 ^ 32 := by
    intro us hus
    obtain ⟨str, rfl, rfl⟩ := Option.map_eq_some_iff.mp hus
    have := str.length_lt
    omega
  obtain ⟨-, hunits, hrest⟩ := Reads.unique (reads_readNullableStringUnits (hlen a))
    (reads_readNullableStringUnits (hlen b)) h
  exact ⟨Option.map_injective (fun _ _ => JavaString.ext) hunits, hrest⟩

/-- The length a big integer is written with. -/
def writtenLength : Option JavaBigInteger → Nat
  | none => 0
  | some .zero => 1
  | some .one => 2
  | some .ten => 3
  | some (.of v _) => byteLength v + 4

/-- The bytes after the length. -/
def writtenMagnitude : Option JavaBigInteger → Bytes
  | some (.of v _) => twosComplement v
  | _ => []

theorem writeBigInteger_eq (v : Option JavaBigInteger) :
    writeBigInteger v = writeLength (writtenLength v) ++ writtenMagnitude v := by
  match v with
  | none | some .zero | some .one | some .ten => exact (List.append_nil _).symm
  | some (.of v _) => rfl

theorem writtenLength_lt (v : Option JavaBigInteger) : writtenLength v < 2 ^ 31 := by
  match v with
  | none | some .zero | some .one | some .ten => decide
  | some (.of v h) => exact h

theorem writeBigInteger_inj {a b : Option JavaBigInteger} {x y : Bytes}
    (h : writeBigInteger a ++ x = writeBigInteger b ++ y) : a = b ∧ x = y := by
  rw [writeBigInteger_eq, writeBigInteger_eq, List.append_assoc, List.append_assoc] at h
  obtain ⟨-, hlength, hrest⟩ := Reads.unique (reads_readInt _) (reads_readInt _) h
  have hlength := ofNat_length_inj (writtenLength_lt a) (writtenLength_lt b) hlength
  match a, b with
  | none, none | some .zero, some .zero | some .one, some .one | some .ten, some .ten =>
    exact ⟨rfl, hrest⟩
  | some (.of v hv), some (.of w hw) =>
    have hbytes : (twosComplement v).length = (twosComplement w).length := by
      rw [length_twosComplement, length_twosComplement]
      simpa [writtenLength] using hlength
    obtain ⟨hmagnitude, hxy⟩ := List.append_inj hrest hbytes
    have hvw : twosComplement v = twosComplement w := hmagnitude
    have hval : v = w := by rw [← beInt_twosComplement v, hvw, beInt_twosComplement]
    subst hval
    exact ⟨rfl, hxy⟩
  | none, some .zero | none, some .one | none, some .ten | some .zero, none
  | some .zero, some .one | some .zero, some .ten | some .one, none | some .one, some .zero
  | some .one, some .ten | some .ten, none | some .ten, some .zero | some .ten, some .one =>
    simp [writtenLength] at hlength
  | none, some (.of w _) | some .zero, some (.of w _) | some .one, some (.of w _)
  | some .ten, some (.of w _) | some (.of w _), none | some (.of w _), some .zero
  | some (.of w _), some .one | some (.of w _), some .ten =>
    have hpos : 0 < byteLength w := Nat.succ_pos _
    simp only [writtenLength] at hlength
    omega

theorem writeBigDecimal_inj {a b : Option JavaBigDecimal} {x y : Bytes}
    (h : writeBigDecimal a ++ x = writeBigDecimal b ++ y) : a = b ∧ x = y := by
  match a, b with
  | none, none => exact ⟨rfl, List.append_cancel_left h⟩
  | none, some d =>
    rw [writeBigDecimal, writeBigDecimal, List.append_assoc] at h
    exact absurd (writeBigInteger_inj h).1 nofun
  | some d, none =>
    rw [writeBigDecimal, writeBigDecimal, List.append_assoc] at h
    exact absurd (writeBigInteger_inj h).1 nofun
  | some ⟨u, s⟩, some ⟨w, t⟩ =>
    rw [writeBigDecimal, writeBigDecimal, List.append_assoc, List.append_assoc] at h
    obtain ⟨hunscaled, h⟩ := writeBigInteger_inj h
    obtain ⟨-, hscale, hrest⟩ := Reads.unique (reads_readInt _) (reads_readInt _) h
    cases hunscaled
    exact ⟨by rw [show s = t from hscale], hrest⟩

theorem writeDate_inj {a b : JavaDate} {x y : Bytes} (h : writeDate a ++ x = writeDate b ++ y) :
    a = b ∧ x = y := by
  obtain ⟨ya, ma, da⟩ := a
  obtain ⟨yb, mb, db⟩ := b
  rw [writeDate, writeDate, List.append_assoc, List.append_assoc] at h
  obtain ⟨-, hyear, h⟩ := Reads.unique (reads_readInt _) (reads_readInt _) h
  simp only [List.cons_append, List.nil_append, List.cons.injEq] at h
  obtain ⟨rfl, rfl, hrest⟩ := h
  exact ⟨congrArg (JavaDate.mk · ma da) hyear, hrest⟩

/-- The bytes of a scalar key determine it, and where it ends. -/
theorem Scalar.encode_inj {s : Scalar} (hs : s ∈ keyScalars) {v w : s.Val} {x y : Bytes}
    (h : s.encode v ++ x = s.encode w ++ y) : v = w ∧ x = y := by
  match s, v, w with
  | .string, v, w => exact writeString_inj h
  | .long, v, w => exact (Reads.unique (reads_readLong v) (reads_readLong w) h).2
  | .int, v, w => exact (Reads.unique (reads_readInt v) (reads_readInt w) h).2
  | .short, v, w => exact (Reads.unique (reads_readShort v) (reads_readShort w) h).2
  | .byte, (v : Int8), (w : Int8) =>
    obtain ⟨hbyte, hrest⟩ := List.cons.inj h
    have hvw : v = w := by simpa using congrArg UInt8.toInt8 hbyte
    exact ⟨hvw, hrest⟩
  | .char, v, w => exact (Reads.unique (reads_readChar v) (reads_readChar w) h).2
  | .boolean, v, w => exact (Reads.unique (reads_readBoolean v) (reads_readBoolean w) h).2
  | .float, (v : UInt32), (w : UInt32) =>
    obtain ⟨-, hbits, hrest⟩ := Reads.unique (reads_readInt v.toInt32) (reads_readInt w.toInt32) h
    have hvw : v = w := by simpa using congrArg Int32.toUInt32 hbits
    exact ⟨hvw, hrest⟩
  | .double, (v : UInt64), (w : UInt64) =>
    obtain ⟨-, hbits, hrest⟩ := Reads.unique (reads_readLong v.toInt64) (reads_readLong w.toInt64) h
    have hvw : v = w := by simpa using congrArg Int64.toUInt64 hbits
    exact ⟨hvw, hrest⟩
  | .bigInteger, v, w => exact writeBigInteger_inj h
  | .bigDecimal, v, w => exact writeBigDecimal_inj h
  | .date, v, w => exact (Reads.unique (reads_readLong v) (reads_readLong w) h).2
  | .localDate, v, w => exact writeDate_inj h
  | .byteArray, _, _ | .localDateTime, _, _ | .localTime, _, _ | .instant, _, _
  | .timestamp, _, _ | .enumOrdinal, _, _ | .intArray, _, _ | .longArray, _, _
  | .doubleArray, _, _ | .floatArray, _, _ | .shortArray, _, _ | .booleanArray, _, _
  | .charArray, _, _ => exact absurd hs (by decide)

mutual

/-- **The bytes of a key determine it**, and where it ends. -/
theorem Ser.encode_inj (s : Ser) (t : Text) (hs : s.isKeyOf t = true) (v w : s.Val) (x y : Bytes)
    (h : s.encode v ++ x = s.encode w ++ y) : v = w ∧ x = y := by
  match s, v, w with
  | .scalar s, v, w =>
    simp only [Ser.isKeyOf, Bool.and_eq_true, List.contains_iff_mem] at hs
    exact Scalar.encode_inj hs.1 h
  | .tuple fields, v, w =>
    rw [Ser.isKeyOf, Option.any_eq_true] at hs
    obtain ⟨inner, -, hfields⟩ := hs
    exact encodeTuple_inj fields _ hfields v w x y h

theorem encodeTuple_inj (fields : List Ser) (ts : List Text)
    (hs : fieldsAreKeysOf fields ts = true) (vs ws : TupleVal fields) (x y : Bytes)
    (h : encodeTuple fields vs ++ x = encodeTuple fields ws ++ y) : vs = ws ∧ x = y := by
  match fields, ts, vs, ws with
  | [], [], (), () => exact ⟨rfl, h⟩
  | s :: ss, t :: ts, (v, vs), (w, ws) =>
    rw [fieldsAreKeysOf, Bool.and_eq_true] at hs
    have h : s.encode v ++ (encodeTuple ss vs ++ x) = s.encode w ++ (encodeTuple ss ws ++ y) :=
      (List.append_assoc _ _ _).symm.trans (h.trans (List.append_assoc _ _ _))
    obtain ⟨hfield, h⟩ := Ser.encode_inj s (trim t) hs.1 v w _ _ h
    obtain ⟨hfields, hrest⟩ := encodeTuple_inj ss ts hs.2 vs ws x y h
    exact ⟨Prod.ext hfield hfields, hrest⟩

end

end Bytes

end FlinkExplorer
