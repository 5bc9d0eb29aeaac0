import FlinkExplorer.Flink.Serializer
import FlinkExplorer.Parser.BigNumber
import FlinkExplorer.Parser.ProtoFields

namespace FlinkExplorer

open Lib

/-!
# The reference rendering of values

`Ser.render` puts together what the decoder's own functions make of the parts of a value.  Here the
same is said from the value alone: how a date, a time, a character, a decimal, a string, a byte array
and the object of a POJO are written.

* `JavaDate.text`, `JavaTime.text`, `unitText`, `utf16Text`, `decimalOf`, `bytesText` — the texts;
* `pojoObject` — the members of a POJO, and the message its protobuf patterns put in;
* `Ser.reference` — the rendering of a value;
* `render_eq_reference` — what the decoder's functions make of a value is its reference rendering.
-/

/-! ### Numbers, dates and times -/

/-- A number in decimal, with zeros in front up to a width. -/
def zeroPadded (w n : Nat) : Text :=
  let digits := Nat.toDigits 10 n
  List.replicate (w - digits.length) '0' ++ digits

/-- A signed number in decimal; the sign is part of the width. -/
def signPadded (w : Nat) (v : Int) : Text :=
  if v < 0 then '-' :: zeroPadded (w - 1) v.natAbs else zeroPadded w v.natAbs

/-- A number in decimal. -/
def decimal (v : Int) : Text := signPadded 0 v

/-- `2024-02-29`: a year of four digits or more, a month and a day. -/
def JavaDate.text (d : JavaDate) : Text :=
  signPadded 4 d.year.toInt ++ ['-'] ++ zeroPadded 2 d.month.toNat ++ ['-'] ++ zeroPadded 2 d.day.toNat

/-- `12:30:59`, with the milliseconds behind a point where there are nanoseconds. -/
def JavaTime.text (t : JavaTime) : Text :=
  zeroPadded 2 t.hour.toNat ++ [':'] ++ zeroPadded 2 t.minute.toNat ++ [':']
    ++ zeroPadded 2 t.second.toNat
    ++ if t.nano.toInt = 0 then [] else '.' :: signPadded 3 (t.nano.toInt.tdiv 1000000)

theorem padNat_eq (w n : Nat) : padNat w n = zeroPadded w n := rfl

theorem padInt_eq (w : Nat) (v : Int) : padInt w v = signPadded w v := rfl

/-- A natural number in decimal, without padding. -/
theorem natText_eq (n : Nat) : natText n = zeroPadded 0 n := by
  rw [zeroPadded, Nat.zero_sub, List.replicate_zero, List.nil_append]
  rfl

/-- A number of either sign in decimal. -/
theorem intText_eq (v : Int) : intText v = decimal v := by
  unfold intText decimal signPadded
  rw [natText_eq]

/-- The code shows a date as the reference does. -/
theorem renderDate_eq (d : JavaDate) : renderDate d = d.text := by
  unfold renderDate dateText JavaDate.text
  rw [padInt_eq, padNat_eq, padNat_eq]
  simp only [List.append_assoc, List.cons_append, List.nil_append]

/-- The code shows a time of day as the reference does. -/
theorem renderTime_eq (t : JavaTime) : renderTime t = t.text := by
  have hzero : t.nano = 0 ↔ t.nano.toInt = 0 := by
    rw [← Int32.toInt_inj]
    rfl
  have hmillis : (t.nano / 1000000).toInt = t.nano.toInt.tdiv 1000000 :=
    Int32.toInt_div_of_ne_right t.nano 1000000 (by decide)
  unfold renderTime timeText JavaTime.text
  rw [hmillis, padInt_eq, padNat_eq, padNat_eq, padNat_eq]
  by_cases hn : t.nano.toInt = 0
  · rw [if_pos (hzero.mpr hn), if_pos hn]
    simp
  · rw [if_neg (fun h => hn (hzero.mp h)), if_neg hn]
    simp

/-! ### Characters and strings -/

/-- A hexadecimal digit. -/
def hexOf (n : Nat) : Char := "0123456789ABCDEF".toList.getD n '?'

/-- Whether a unit is the first or the second half of a pair. -/
def isHigh (u : UInt16) : Bool := 0xD800 ≤ u.toNat && u.toNat < 0xDC00

def isLow (u : UInt16) : Bool := 0xDC00 ≤ u.toNat && u.toNat < 0xE000

/-- A `char`: its character, or its escape `\uD800` where it is half of a pair. -/
def unitText (u : UInt16) : Text :=
  if isHigh u || isLow u then
    ['\\', 'u', hexOf (u.toNat / 4096), hexOf (u.toNat / 256 % 16), hexOf (u.toNat / 16 % 16),
      hexOf (u.toNat % 16)]
  else [Char.ofNat u.toNat]

/-- A string: a pair of halves is one character, and a half alone is U+FFFD. -/
def utf16Text : List UInt16 → Text
  | [] => []
  | [u] => [if isHigh u || isLow u then Char.ofNat 0xFFFD else Char.ofNat u.toNat]
  | u :: v :: rest =>
    if isHigh u && isLow v then
      Char.ofNat (0x10000 + (u.toNat - 0xD800) * 0x400 + (v.toNat - 0xDC00)) :: utf16Text rest
    else
      (if isHigh u || isLow u then Char.ofNat 0xFFFD else Char.ofNat u.toNat) :: utf16Text (v :: rest)

/-- A surrogate is one of the two kinds. -/
theorem isSurrogate_eq (u : UInt16) : isSurrogate u = (isHigh u || isLow u) := by
  rw [Bool.eq_iff_iff]
  simp only [isSurrogate, isHigh, isLow, Bool.and_eq_true, Bool.or_eq_true, decide_eq_true_eq]
  omega

theorem isTrailSurrogate_eq (u : UInt16) : isTrailSurrogate u = isLow u := by
  rw [Bool.eq_iff_iff]
  simp only [isTrailSurrogate, isLow, Bool.and_eq_true, decide_eq_true_eq]
  omega

/-- The digits of the code are those of the reference. -/
theorem hexDigitUpper_eq {n : Nat} (h : n < 16) : hexDigitUpper n = hexOf n := by
  have hall : ∀ i : Fin 16, hexDigitUpper i.val = hexOf i.val := by decide
  exact hall ⟨n, h⟩

/-- The code shows a unit as the reference does. -/
theorem charValue_eq_unitText (u : UInt16) : charValue u = .string (unitText u) := by
  have hlt : u.toNat < 65536 := u.toNat_lt
  unfold charValue unitText hexUnit
  rw [isSurrogate_eq, hexDigitUpper_eq (by omega), hexDigitUpper_eq (by omega),
    hexDigitUpper_eq (by omega), hexDigitUpper_eq (by omega)]
  split <;> rfl

/-- What one item of a string is shown as. -/
theorem itemText_eq (u : UInt16) :
    (if isHigh u || isLow u then Char.ofNat 0xFFFD else Char.ofNat u.toNat)
      = match (if isSurrogate u then .error u else .ok (Char.ofNat u.toNat) : Except UInt16 Char) with
        | .ok c => c
        | .error _ => Char.ofNat 0xFFFD := by
  rw [isSurrogate_eq]
  split <;> rfl

/-- The code reads UTF-16 as the reference does. -/
theorem textOfUnits_eq (units : List UInt16) : textOfUnits units = utf16Text units := by
  unfold textOfUnits
  induction units using utf16Text.induct with
  | case1 => rfl
  | case2 u =>
    unfold decodeUtf16 utf16Text
    rw [itemText_eq]
    split <;> rfl
  | case3 u v rest hpair ih =>
    rw [Bool.and_eq_true] at hpair
    have hhigh : isLow u = false := by
      have h := hpair.1
      simp only [isHigh, isLow, Bool.and_eq_true, Bool.and_eq_false_iff, decide_eq_true_eq,
        decide_eq_false_iff_not] at h ⊢
      omega
    rw [decodeUtf16, isSurrogate_eq, isTrailSurrogate_eq, isTrailSurrogate_eq, hpair.1, hpair.2, hhigh,
      utf16Text, hpair.1, hpair.2]
    have hchar : surrogatePair u v
        = Char.ofNat (0x10000 + (u.toNat - 0xD800) * 0x400 + (v.toNat - 0xDC00)) :=
      congrArg Char.ofNat (by omega)
    simp only [Bool.true_or, Bool.not_true, Bool.false_eq_true, if_false, if_true, Bool.and_self,
      List.map_cons, ih, hchar]
  | case4 u v rest hpair ih =>
    have hpair' : (isHigh u && isLow v) = false := by simpa using hpair
    rw [utf16Text, if_neg hpair, ← ih, itemText_eq, decodeUtf16, isTrailSurrogate_eq,
      isTrailSurrogate_eq]
    cases hs : isSurrogate u with
    | false => rfl
    | true =>
      rw [isSurrogate_eq, Bool.or_eq_true] at hs
      cases hlow : isLow u with
      | true => rfl
      | false =>
        have hhigh : isHigh u = true := hs.resolve_right (by simp [hlow])
        have hv : isLow v = false := by simpa [hhigh] using hpair'
        rw [hv]
        rfl

/-- The text of a byte array: its characters when it is short and they print, else its length. -/
def bytesText (b : Bytes) : Text :=
  match decodeUtf8 b with
  | some t =>
    if b.length ≤ 200 ∧ (t.all fun c => c = '\n' || !isControl c) = true then t
    else ['['] ++ zeroPadded 0 b.length ++ " bytes]".toList
  | none => ['['] ++ zeroPadded 0 b.length ++ " bytes]".toList

/-- The code shows bytes as the reference does. -/
theorem bytesToValue_eq (b : Bytes) : bytesToValue b = .string (bytesText b) := by
  have hcount : "[".toList ++ natText b.length ++ " bytes]".toList
      = ['['] ++ zeroPadded 0 b.length ++ " bytes]".toList := by
    rw [natText_eq]
    rfl
  unfold bytesToValue bytesText
  dsimp only
  rw [hcount]
  cases decodeUtf8 b with
  | none => exact ite_self _
  | some t =>
    dsimp only
    have hprints : (t.all fun c => !isControl c || c == '\n')
        = t.all fun c => c = '\n' || !isControl c :=
      congrArg t.all (funext fun c => Bool.or_comm _ _)
    rw [hprints]
    by_cases hshort : b.length ≤ 200
    · rw [if_pos hshort]
      by_cases htext : (t.all fun c => c = '\n' || !isControl c) = true
      · rw [if_pos htext, if_pos ⟨hshort, htext⟩]
      · rw [if_neg htext, if_neg fun h => htext h.2]
    · rw [if_neg hshort, if_neg fun h => hshort h.1]

/-! ### Decimals -/

/-- The digits with the point in front of the last `scale` of them, zeros in front as needed. -/
def pointed (digits : Text) (scale : Nat) : Text :=
  let padded := List.replicate (scale + 1 - digits.length) '0' ++ digits
  padded.take (padded.length - scale) ++ '.' :: padded.drop (padded.length - scale)

/-- One digit, the others behind a point, and the exponent. -/
def scientific (digits : Text) (exponent : Int) : Text :=
  digits.take 1 ++ (if digits.length = 1 then [] else '.' :: digits.drop 1)
    ++ if exponent = 0 then [] else 'E' :: (if 0 < exponent then ['+'] else []) ++ decimal exponent

/-- `unscaled × 10^-scale` in Java's form: with the point in its place where the number is not
    smaller than `10^-6` and has no zeros behind its digits, else with an exponent. -/
def decimalOf (unscaled scale : Int) : Text :=
  let digits := zeroPadded 0 unscaled.natAbs
  let exponent := digits.length - 1 - scale
  (if unscaled < 0 then ['-'] else [])
    ++ if scale = 0 then digits
      else if 0 < scale ∧ -6 ≤ exponent then pointed digits scale.toNat
      else scientific digits exponent

/-- A number has a digit. -/
theorem zeroPadded_ne_nil (w n : Nat) : zeroPadded w n ≠ [] := by
  intro h
  have hdigits := (List.append_eq_nil_iff.mp h).2
  exact absurd hdigits (Nat.toDigits_ne_nil)

/-- Without its sign. -/
theorem decimalText_eq {digits : Text} (hdigits : digits ≠ []) (scale : Int) :
    decimalText digits scale
      = if scale = 0 then digits
        else if 0 < scale ∧ -6 ≤ (digits.length : Int) - 1 - scale then pointed digits scale.toNat
        else scientific digits (digits.length - 1 - scale) := by
  have hpos : 0 < digits.length := List.length_pos_of_ne_nil hdigits
  unfold decimalText
  dsimp only
  rw [show -scale + ((digits.length : Int) - 1) = digits.length - 1 - scale by omega]
  by_cases hzero : scale = 0
  · rw [if_pos hzero, if_pos hzero, if_pos (by omega)]
  rw [if_neg hzero, if_neg hzero]
  by_cases hplain : 0 < scale ∧ -6 ≤ (digits.length : Int) - 1 - scale
  · rw [if_pos hplain, if_pos ⟨hplain.1.le, hplain.2⟩]
    unfold pointed
    dsimp only
    by_cases hinside : scale < digits.length
    · -- The point falls inside the digits.
      have hnone : scale.toNat + 1 - digits.length = 0 := by omega
      rw [if_pos hinside, hnone, List.replicate_zero, List.nil_append]
      congr 2 <;> (congr 1; omega)
    · -- Zeros are put in front, so that one digit is before it.
      obtain ⟨zeros, hzeros⟩ : ∃ m, scale.toNat + 1 - digits.length = m + 1 :=
        ⟨scale.toNat - digits.length, by omega⟩
      rw [if_neg hinside, hzeros]
      have hlen : (List.replicate (zeros + 1) '0' ++ digits).length - scale.toNat = 1 := by
        rw [List.length_append, List.length_replicate]
        omega
      rw [hlen, show (scale - (digits.length : Int)).toNat = zeros by omega]
      rfl
  · rw [if_neg hplain, if_neg (by omega)]
    unfold scientific
    congr 1
    · congr 1
      by_cases hone : digits.length = 1
      · rw [if_pos hone, if_neg (by omega)]
      · rw [if_neg hone, if_pos (by omega)]
    · by_cases hexp : (digits.length : Int) - 1 - scale = 0
      · rw [if_pos hexp, if_pos hexp]
      · rw [if_neg hexp, if_neg hexp, intText_eq]
        by_cases hup : 0 < (digits.length : Int) - 1 - scale
        · rw [if_pos hup, if_pos hup]
          rfl
        · rw [if_neg (by omega), if_neg hup]
          rfl

/-- **The code shows a decimal as the reference does.** -/
theorem bigDecimalToString_eq (unscaled scale : Int) :
    bigDecimalToString (intText unscaled) scale = decimalOf unscaled scale := by
  unfold bigDecimalToString decimalOf
  dsimp only
  rw [← decimalText_eq (zeroPadded_ne_nil 0 _)]
  unfold intText
  rw [natText_eq]
  by_cases hneg : unscaled < 0
  · rw [if_pos hneg, if_pos hneg]
    rfl
  · rw [if_neg hneg, if_neg hneg, ← natText_eq]
    rw [stripPrefix_minus_natText]
    rfl

/-! ### Objects -/

/-- What a field of a POJO looks like. -/
def FieldRead.looks : FieldRead → Json
  | .null => .null
  | .bytes b => .string (bytesText b)
  | .value v => v
  | .lost marker => marker

/-- The members of an object, the last of those with one name. -/
def objectOf (members : List (Text × Json)) : List (Text × Json) :=
  members.foldl (fun obj m => objInsert m.1 m.2 obj) []

/-- How the fields of a POJO look where patterns name its byte[] fields: these show their length. -/
def patternLooks (ctx : ProtoContext) (x : Text × FieldRead) : Json :=
  match x.2 with
  | .bytes b =>
    if (ctx.patterns.map ProtoPattern.bytesField).contains x.1 then
      .string (['['] ++ zeroPadded 0 b.length ++ " bytes]".toList)
    else .string (bytesText b)
  | other => other.looks

/-- The texts of the fields that a pattern names for a class. -/
def classTexts (ctx : ProtoContext) (reads : FieldReads) : List Text :=
  reads.filterMap fun x =>
    if (ctx.patterns.map ProtoPattern.classField).contains x.1 then
      match x.2 with
      | .value (.string s) => some s
      | .bytes b =>
        if (ctx.patterns.map ProtoPattern.bytesField).contains x.1 then none else some (bytesText b)
      | _ => none
    else none

/-- The byte arrays that a pattern names. -/
def namedBytes (ctx : ProtoContext) (reads : FieldReads) : List Bytes :=
  reads.filterMap fun x =>
    match x.2 with
    | .bytes b => if (ctx.patterns.map ProtoPattern.bytesField).contains x.1 then some b else none
    | _ => none

/-- The object of a POJO: its fields; with patterns, the message that the last byte array named by
    them holds, of the class that the last text named by them says. -/
def pojoObject (proto : Option ProtoContext) (reads : FieldReads) : Json :=
  match proto with
  | none => .object (objectOf (reads.map fun x => (x.1, x.2.looks)))
  | some ctx =>
    let members := objectOf (reads.map fun x => (x.1, patternLooks ctx x))
    match (classTexts ctx reads).getLast?, (namedBytes ctx reads).getLast?, ctx.patterns with
    | some cn, some b, first :: _ =>
      match ctx.decode cn b first.resolve with
      | some msg => .object (objInsert first.bytesField (.string msg) members)
      | none => .object members
    | _, _, _ => .object members

section Objects

variable {ctx : ProtoContext}

theorem any_eq_contains {α : Type} (xs : List α) (name : α → Text) (n : Text) :
    (xs.any fun x => name x = n) = (xs.map name).contains n := by
  induction xs with
  | nil => rfl
  | cons x xs ih =>
    rw [List.any_cons, List.map_cons, List.contains_cons, ih]
    refine congrArg (fun b => b || (xs.map name).contains n) ?_
    rw [Bool.eq_iff_iff, decide_eq_true_iff, beq_iff_eq, eq_comm]

theorem namesBytes_eq {n : Text} :
    ctx.namesBytes n = (ctx.patterns.map ProtoPattern.bytesField).contains n :=
  any_eq_contains ctx.patterns ProtoPattern.bytesField n

theorem namesClass_eq {n : Text} :
    ctx.namesClass n = (ctx.patterns.map ProtoPattern.classField).contains n :=
  any_eq_contains ctx.patterns ProtoPattern.classField n

/-- What the code marks of a field is how the patterns look at it. -/
theorem mark_eq_patternLooks (x : Text × FieldRead) : ctx.mark x = patternLooks ctx x := by
  obtain ⟨n, x⟩ := x
  cases x with
  | bytes b =>
    unfold ProtoContext.mark patternLooks
    dsimp only
    rw [namesBytes_eq, bytesToValue_eq, byteCount, natText_eq]
    rfl
  | null | value v | lost m => rfl

/-- The classes the code notes are those the patterns name. -/
theorem filterMap_className (reads : FieldReads) :
    reads.filterMap ctx.className = classTexts ctx reads := by
  unfold classTexts
  refine congrArg (fun f => reads.filterMap f) (funext fun x => ?_)
  obtain ⟨n, x⟩ := x
  unfold ProtoContext.className ProtoContext.decodedText
  dsimp only
  rw [namesClass_eq]
  cases x with
  | bytes b =>
    dsimp only
    rw [namesBytes_eq, bytesToValue_eq]
  | value v => cases v <;> rfl
  | null | lost m => rfl

/-- The messages the code notes are those the patterns name. -/
theorem filterMap_messageBytes (reads : FieldReads) :
    reads.filterMap ctx.messageBytes = namedBytes ctx reads := by
  unfold namedBytes
  refine congrArg (fun f => reads.filterMap f) (funext fun x => ?_)
  obtain ⟨n, x⟩ := x
  unfold ProtoContext.messageBytes
  cases x with
  | bytes b =>
    dsimp only
    rw [namesBytes_eq]
  | null | value v | lost m => rfl

/-- The object the code gathers is that of the fields. -/
theorem gather_obj (reads : FieldReads) :
    (ctx.gather reads).obj = objectOf (reads.map fun x => (x.1, patternLooks ctx x)) := by
  induction reads using List.reverseRecOn with
  | nil => rfl
  | append_singleton reads x ih =>
    rw [gather_append, List.map_append, objectOf, List.foldl_append]
    show objInsert x.1 (ctx.mark x) (ctx.gather reads).obj = _
    rw [ih, mark_eq_patternLooks]
    rfl

/-- **The code shows a record as the reference does**, messages decoded. -/
theorem applyProto_eq_pojoObject (reads : FieldReads) :
    applyProto (some ctx) (ctx.gather reads) = pojoObject (some ctx) reads := by
  rw [applyProto_gather, gather_obj]
  unfold pojoObject ProtoContext.stored
  rw [filterMap_className, filterMap_messageBytes]
  dsimp only
  cases (classTexts ctx reads).getLast? with
  | none => rfl
  | some cn =>
    cases (namedBytes ctx reads).getLast? with
    | none => rfl
    | some b =>
      cases hpatterns : ctx.patterns with
      | nil => rfl
      | cons first rest =>
        cases hdecode : ctx.decode cn b first.resolve with
        | none => simp [hdecode]
        | some msg => simp [hdecode]

end Objects

/-! ### Values -/

section Reference

variable (F : FloatText) (proto : Option ProtoContext)

/-- A list as a JSON array. -/
def arrayOf {α : Type} (look : α → Json) (xs : JavaList α) : Json := .array (xs.items.map look)

/-- A value that may be null. -/
def orNull {α : Type} (look : α → Json) : Option α → Json
  | none => .null
  | some v => look v

/-- What a scalar looks like.  The text of a floating point number is Rust's, and instants are
    written by `millis_to_iso`. -/
def Scalar.reference : (s : Scalar) → s.Val → Json
  | .int, (v : Int32) => .int v.toInt
  | .long, (v : Int64) => .int v.toInt
  | .boolean, (v : Bool) => .bool v
  | .double, (v : UInt64) => .float (F.fromF64 v)
  | .float, (v : UInt32) => .float (F.fromF32 v)
  | .short, (v : Int16) => .int v.toInt
  | .byte, (v : Int8) => .int v.toInt
  | .char, v => .string (unitText v)
  | .bigInteger, (v : Option JavaBigInteger) => orNull (fun b => .string (decimal b.value)) v
  | .bigDecimal, (v : Option JavaBigDecimal) =>
    orNull (fun d => .string (decimalOf d.unscaled.value d.scale.toInt)) v
  | .string, (v : Option JavaString) => orNull (fun s => .string (utf16Text s.units)) v
  | .byteArray, (bs : JavaList UInt8) => .string (bytesText bs.items)
  | .localDateTime, (v : JavaDate × JavaTime) => .string (v.1.text ++ ['T'] ++ v.2.text)
  | .localDate, (v : JavaDate) => .string v.text
  | .localTime, (v : JavaTime) => .string v.text
  | .instant, (v : JavaInstant) => .string (millisToIso v.millis)
  | .date, (v : Int64) => .string (millisToIso v.toInt)
  | .timestamp, (v : Int64 × Int32) => .string (millisToIso v.1.toInt)
  | .enumOrdinal, (v : Int32) => .string ("ordinal(".toList ++ decimal v.toInt ++ [')'])
  | .intArray, vs => arrayOf (fun v : Int32 => .int v.toInt) vs
  | .longArray, vs => arrayOf (fun v : Int64 => .int v.toInt) vs
  | .doubleArray, vs => arrayOf (fun v : UInt64 => .float (F.fromF64 v)) vs
  | .floatArray, vs => arrayOf (fun v : UInt32 => .float (F.fromF32 v)) vs
  | .shortArray, vs => arrayOf (fun v : Int16 => .int v.toInt) vs
  | .booleanArray, vs => arrayOf (fun v : Bool => .bool v) vs
  | .charArray, vs => arrayOf (fun v : UInt16 => .string (unitText v)) vs

mutual

/-- **The reference rendering** of a value.  A map inside another value, and a class that is not
    known, have none and show a marker. -/
def Ser.reference : (s : Ser) → s.Val → Json
  | .scalar s, v => s.reference F v
  | .enum _ constants, (ordinal : Fin constants.length) => .string (constants.get ordinal)
  | .stringArray, (vs : JavaList (Option JavaString)) =>
    arrayOf (orNull fun s => .string (utf16Text s.units)) vs
  | .tuple fields, v => .array (tupleReference fields v)
  | .list elem, vs => arrayOf elem.reference vs
  | .array elem, vs => arrayOf (orNull elem.reference) vs
  | .nullable elem, (v : Option elem.Val) => orNull elem.reference v
  | .map key value, _ => undecodable (Ser.map key value).typeName
  | .pojo _ fields, (v : Option (PojoVal fields)) =>
    orNull (fun vs => pojoObject proto (fieldsReference fields vs)) v
  | .other snapshotClass payload, _ => undecodable (Ser.other snapshotClass payload).typeName

/-- The fields of a tuple. -/
def tupleReference : (fields : List Ser) → TupleVal fields → List Json
  | [], _ => []
  | s :: ss, vs => s.reference vs.1 :: tupleReference ss vs.2

/-- The fields of a POJO, by their names. -/
def fieldsReference : (fields : List SerField) → PojoVal fields → FieldReads
  | [], _ => []
  | f :: fs, vs => (f.name, vs.1.elim .null f.reference) :: fieldsReference fs vs.2

/-- A field that is not null. -/
def SerField.reference : (f : SerField) → f.Val → FieldRead
  | .mk _ (.scalar .byteArray), (bs : JavaList UInt8) => .bytes bs.items
  | .mk _ s, v => .value (s.reference v)

end

end Reference

/-! ### The decoder's texts are these -/

section Render

variable {F : FloatText} {proto : Option ProtoContext}

/-- A string that may be null. -/
theorem renderString_eq (v : Option JavaString) :
    renderString v = orNull (fun s => .string (utf16Text s.units)) v := by
  cases v with
  | none => rfl
  | some s => exact congrArg Json.string (textOfUnits_eq s.units)

/-- **A scalar** is shown as the reference shows it. -/
theorem Scalar.render_eq_reference (s : Scalar) (v : s.Val) : s.render F v = s.reference F v := by
  cases s with
  | char => exact charValue_eq_unitText v
  | bigInteger =>
    cases v with
    | none => rfl
    | some b => exact congrArg Json.string (intText_eq b.value)
  | bigDecimal =>
    cases v with
    | none => rfl
    | some d => exact congrArg Json.string (bigDecimalToString_eq d.unscaled.value d.scale.toInt)
  | string => exact renderString_eq v
  | byteArray => exact bytesToValue_eq v.items
  | localDateTime =>
    show Json.string (renderDate v.1 ++ 'T' :: renderTime v.2) = _
    rw [renderDate_eq, renderTime_eq, ← List.singleton_append, ← List.append_assoc]
    rfl
  | localDate => exact congrArg Json.string (renderDate_eq v)
  | localTime => exact congrArg Json.string (renderTime_eq v)
  | enumOrdinal =>
    show Json.string ("ordinal(".toList ++ intText (v : Int32).toInt ++ ")".toList) = _
    rw [intText_eq]
    rfl
  | charArray =>
    show renderList charValue v = arrayOf _ v
    unfold renderList arrayOf
    rw [funext charValue_eq_unitText]
  | _ => rfl

/-- A POJO with one more field. -/
def withField (proto : Option ProtoContext) (st : PojoState) (x : Text × FieldRead) : PojoState :=
  match proto with
  | none => { st with obj := objInsert x.1 x.2.looks st.obj }
  | some ctx => ctx.capture st x

/-- A POJO with the fields read so far. -/
def withFields (proto : Option ProtoContext) (reads : FieldReads) : PojoState :=
  reads.foldl (withField proto) ⟨[], none, none⟩

/-- One field more. -/
theorem withFields_append (reads : FieldReads) (x : Text × FieldRead) :
    withFields proto (reads ++ [x]) = withField proto (withFields proto reads) x := by
  rw [withFields, List.foldl_append]
  rfl

/-- The object of the fields read. -/
theorem applyProto_withFields (reads : FieldReads) :
    applyProto proto (withFields proto reads) = pojoObject proto reads := by
  cases proto with
  | some ctx => exact applyProto_eq_pojoObject reads
  | none =>
    have hobj : (withFields none reads).obj = objectOf (reads.map fun x => (x.1, x.2.looks)) := by
      induction reads using List.reverseRecOn with
      | nil => rfl
      | append_singleton reads x ih =>
        rw [withFields_append, List.map_append, objectOf, List.foldl_append]
        show objInsert x.1 x.2.looks (withFields none reads).obj = _
        rw [ih]
        rfl
    exact congrArg Json.object hobj

/-- The state with one more member. -/
def PojoState.put (name : Text) (shown : Json × PojoState) : PojoState :=
  { shown.2 with obj := objInsert name shown.1 shown.2.obj }

/-- A value that is no captured byte array. -/
theorem put_value (name : Text) (x : FieldRead) (st : PojoState) (v : Json)
    (hmark : ∀ ctx, proto = some ctx → ctx.mark (name, x) = v ∧ ctx.messageBytes (name, x) = none
      ∧ ctx.decodedText (name, x) = match v with | .string s => some s | _ => none)
    (hlooks : v = x.looks) :
    PojoState.put name (v, captureProtoClass proto name v st) = withField proto st (name, x) := by
  cases proto with
  | none =>
    have hclass : captureProtoClass none name v st = st := by
      cases v <;> rfl
    rw [hclass, hlooks]
    rfl
  | some ctx =>
    obtain ⟨hm, hbytes, htext⟩ := hmark ctx rfl
    rw [captureProtoClass_eq name x st v htext]
    show _ = ctx.capture st (name, x)
    unfold ProtoContext.capture
    rw [hm, hbytes]
    rfl

/-- A byte array, captured where a pattern names it. -/
theorem put_byteArray (name : Text) (st : PojoState) (bs : JavaList UInt8) :
    PojoState.put name ((SerField.mk name (.scalar .byteArray)).render F proto st bs)
      = withField proto st (name, .bytes bs.items) := by
  have hrender := SerField.render_byteArray F proto name st bs
  rw [hrender]
  by_cases hnamed : anyPattern proto (·.bytesField = name) = true
  · rw [if_pos hnamed]
    cases proto with
    | none => cases hnamed
    | some ctx =>
      have hmark : ctx.mark (name, .bytes bs.items) = byteCount bs.items := if_pos hnamed
      have hbytes : ctx.messageBytes (name, .bytes bs.items) = some bs.items := if_pos hnamed
      have hclass : ctx.className (name, .bytes bs.items) = none :=
        className_of_decodedText (if_pos hnamed)
      show _ = ctx.capture st (name, .bytes bs.items)
      unfold ProtoContext.capture
      rw [hmark, hbytes, hclass]
      rfl
  · rw [if_neg hnamed]
    refine put_value name _ st _ (fun ctx hctx => ?_) (bytesToValue_eq bs.items)
    subst hctx
    refine ⟨if_neg hnamed, if_neg hnamed, ?_⟩
    exact if_neg hnamed

/-- Any other value. -/
theorem put_other (name : Text) {s : Ser} (hs : s ≠ .scalar .byteArray) (st : PojoState) (v : s.Val)
    (hval : s.render F proto v = s.reference F proto v) :
    PojoState.put name ((SerField.mk name s).render F proto st v)
      = withField proto st (name, (SerField.mk name s).reference F proto v) := by
  have href : (SerField.mk name s).reference F proto v = .value (s.reference F proto v) := by
    cases s with
    | scalar s =>
      cases s with
      | byteArray => exact absurd rfl hs
      | _ => rfl
    | _ => rfl
  rw [SerField.render_of_ne F proto name st hs v, href, hval]
  refine put_value name _ st _ (fun ctx _ => ⟨rfl, rfl, ?_⟩) rfl
  cases s.reference F proto v <;> rfl

mutual

/-- **What the decoder's functions make of a value is its reference rendering.** -/
theorem Ser.render_eq_reference (s : Ser) (v : s.Val) : s.render F proto v = s.reference F proto v := by
  match s, v with
  | .scalar s, v => exact s.render_eq_reference v
  | .enum _ _, v => rfl
  | .stringArray, v =>
    show renderList renderString v = arrayOf _ v
    unfold renderList arrayOf
    rw [funext renderString_eq]
  | .tuple fields, v => exact congrArg Json.array (renderTuple_eq_reference fields v)
  | .list elem, v =>
    exact congrArg (fun look => Json.array (v.items.map look))
      (funext fun w => elem.render_eq_reference w)
  | .array elem, v =>
    have helem : (fun w : Option elem.Val => w.elim .null (elem.render F proto))
        = orNull (elem.reference F proto) := by
      funext w
      cases w with
      | none => rfl
      | some w => exact elem.render_eq_reference w
    exact congrArg (fun look => Json.array (v.items.map look)) helem
  | .nullable elem, none => rfl
  | .nullable elem, some v => exact elem.render_eq_reference v
  | .map _ _, _ => rfl
  | .pojo _ fields, none => rfl
  | .pojo _ fields, some vs => exact renderPojo_eq_reference fields [] vs
  | .other _ _, _ => rfl

/-- The fields of a tuple, one by one. -/
theorem renderTuple_eq_reference (fields : List Ser) (vs : TupleVal fields) :
    renderTuple F proto fields vs = tupleReference F proto fields vs := by
  match fields, vs with
  | [], _ => rfl
  | s :: ss, vs =>
    show s.render F proto vs.1 :: renderTuple F proto ss vs.2 = _
    rw [s.render_eq_reference vs.1, renderTuple_eq_reference ss vs.2]
    rfl

/-- The object of a POJO, some of whose fields are gathered. -/
theorem renderPojo_eq_reference (fields : List SerField) (reads : FieldReads) (vs : PojoVal fields) :
    renderPojo F proto fields (withFields proto reads) vs
      = pojoObject proto (reads ++ fieldsReference F proto fields vs) := by
  match fields, vs with
  | [], _ =>
    show applyProto proto (withFields proto reads) = pojoObject proto (reads ++ [])
    rw [List.append_nil, applyProto_withFields]
  | .mk name s :: fs, (v, vs) =>
    have hstep : PojoState.put name (v.elim (.null, withFields proto reads)
          fun v => (SerField.mk name s).render F proto (withFields proto reads) v)
        = withFields proto (reads ++ [(name, v.elim .null ((SerField.mk name s).reference F proto))]) := by
      rw [withFields_append]
      cases v with
      | none =>
        cases proto with
        | none => rfl
        | some ctx =>
          show _ = ctx.capture _ (name, .null)
          unfold ProtoContext.capture
          rw [className_of_decodedText rfl]
          rfl
      | some v =>
        by_cases hbytes : s = .scalar .byteArray
        · subst hbytes
          exact put_byteArray (F := F) name _ v
        · exact put_other name hbytes _ v (s.render_eq_reference v)
    have hrest := renderPojo_eq_reference fs (reads ++ [(name, v.elim .null
      ((SerField.mk name s).reference F proto))]) vs
    rw [← hstep, List.append_assoc] at hrest
    exact hrest

end

end Render

end FlinkExplorer
