import FlinkExplorer.Flink.Keys
import FlinkExplorer.Flink.Same

namespace FlinkExplorer

open Lib Lib.Read

/-!
# Keys with one text are one key

`decodeKey` gives either the JSON text of a key or, when a part of it is null, its bytes.

* two texts of bytes: the bytes determine the key (`Ser.encode_inj`);
* two JSON texts: so does the text, field by field (`Ser.jsonText_inj`), because a string ends at
  its closing quote and any other field at a comma or a bracket;
* one of each: a key shown by its bytes is a tuple or a floating point number, and neither
  prints as `0x…` otherwise.
-/

/-! ### Assumptions on the printing of floats -/

/-- Floats print as JSON numbers, and two floats never alike. -/
structure FloatText.Faithful (F : FloatText) : Prop where
  inj32 : ∀ a b t, F.fromF32 a = some t → F.fromF32 b = some t → a = b
  inj64 : ∀ a b t, F.fromF64 a = some t → F.fromF64 b = some t → a = b
  chars32 : ∀ a t, F.fromF32 a = some t → ∀ c ∈ t, isNumberChar c = true
  chars64 : ∀ a t, F.fromF64 a = some t → ∀ c ∈ t, isNumberChar c = true

/-! ### What a scalar key prints as -/

section Scalars

/-- Whether a scalar is shown as a JSON string. -/
def Scalar.isQuoted : Scalar → Bool
  | .string | .char | .bigInteger | .bigDecimal | .date | .localDate => true
  | _ => false

/-- A boolean, or a number with the characters of one. -/
def Json.IsPlain : Json → Prop
  | .bool _ => True
  | .number n => ∀ c ∈ numberText n, isNumberChar c = true
  | _ => False

theorem Json.isPlain_int (v : Int) : (Json.int v).IsPlain := fun _ => isNumberChar_of_mem_intText

theorem isStop_of_isNumberChar {c : Char} (h : isNumberChar c = true) : isStop c = false := by
  by_contra hstop
  rw [Bool.not_eq_false, isStop, Bool.or_eq_true, beq_iff_eq, beq_iff_eq] at hstop
  rcases hstop with rfl | rfl <;> exact absurd h (by decide)

/-- A plain value holds no character that ends one. -/
theorem Json.IsPlain.no_stop {j : Json} (hj : j.IsPlain) : ∀ c ∈ jsonText j, isStop c = false := by
  match j with
  | .bool true | .bool false => simp [jsonText, boolText, isStop]
  | .number n => exact fun c hc => isStop_of_isNumberChar (hj c hc)

theorem Json.IsPlain.renderKey {j : Json} (hj : j.IsPlain) : renderKey j = some (jsonText j) := by
  match j with
  | .bool _ | .number _ => rfl

variable {F : FloatText}

theorem charValue_eq_string (unit : UInt16) : ∃ t, charValue unit = .string t := by
  unfold charValue
  by_cases hu : isSurrogate unit = true
  · exact ⟨_, if_pos hu⟩
  · exact ⟨_, if_neg hu⟩

theorem Json.float_cases (hchars : ∀ t ∈ text, ∀ c ∈ t, isNumberChar c = true) :
    Json.float text = .null ∨ (Json.float text).IsPlain := by
  match text with
  | none => exact .inl rfl
  | some t => exact .inr (hchars t rfl)

/-- A key shown as a string is a string or null. -/
theorem Scalar.keyRender_quoted {s : Scalar} (hs : s.isQuoted = true) (v : s.Val) :
    s.keyRender F v = .null ∨ ∃ t, s.keyRender F v = .string t := by
  match s, v with
  | .string, (v : Option JavaString) => cases v <;> [exact .inl rfl; exact .inr ⟨_, rfl⟩]
  | .bigInteger, (v : Option JavaBigInteger) => cases v <;> [exact .inl rfl; exact .inr ⟨_, rfl⟩]
  | .bigDecimal, (v : Option JavaBigDecimal) => cases v <;> [exact .inl rfl; exact .inr ⟨_, rfl⟩]
  | .date, _ | .localDate, _ => exact .inr ⟨_, rfl⟩
  | .char, (v : UInt16) => exact .inr (charValue_eq_string v)

/-- Any other scalar key is a number, a boolean, or null. -/
theorem Scalar.keyRender_plain (hF : F.Faithful) {s : Scalar} (hs : s ∈ keyScalars)
    (hq : s.isQuoted = false) (v : s.Val) :
    s.keyRender F v = .null ∨ (s.keyRender F v).IsPlain := by
  match s, v with
  | .long, (v : Int64) => exact .inr (Json.isPlain_int v.toInt)
  | .int, (v : Int32) => exact .inr (Json.isPlain_int v.toInt)
  | .short, (v : Int16) => exact .inr (Json.isPlain_int v.toInt)
  | .byte, (v : Int8) => exact .inr (Json.isPlain_int v.toInt)
  | .boolean, _ => exact .inr trivial
  | .float, (v : UInt32) => exact Json.float_cases (hF.chars32 v)
  | .double, (v : UInt64) => exact Json.float_cases (hF.chars64 v)
  | .string, _ | .char, _ | .bigInteger, _ | .bigDecimal, _ | .date, _ | .localDate, _ => cases hq
  | .byteArray, _ | .localDateTime, _ | .localTime, _ | .instant, _ | .timestamp, _
  | .enumOrdinal, _ | .intArray, _ | .longArray, _ | .doubleArray, _ | .floatArray, _
  | .shortArray, _ | .booleanArray, _ | .charArray, _ => exact absurd hs (by decide)

theorem renderKey_int {a b : Int} {t : Text} (ha : renderKey (.int a) = some t)
    (hb : renderKey (.int b) = some t) : a = b :=
  intText_inj (Option.some.inj (ha.trans hb.symm))

theorem renderKey_string {a b t : Text} (ha : renderKey (.string a) = some t)
    (hb : renderKey (.string b) = some t) : a = b :=
  Option.some.inj (ha.trans hb.symm)

theorem renderKey_float {text : Option Text} {t : Text} (h : renderKey (Json.float text) = some t) :
    text = some t := by
  cases text with
  | none => cases h
  | some _ => exact h

/-- Scalar keys with one text are the same key. -/
theorem Scalar.keyRender_inj (hF : F.Faithful) {s : Scalar} (hs : s ∈ keyScalars) {v w : s.Val}
    {t : Text} (hv : renderKey (s.keyRender F v) = some t)
    (hw : renderKey (s.keyRender F w) = some t) : s.Same v w := by
  -- One case for each scalar type that a key may have; a null has no text.
  match s, v, w with
  | .string, (some v : Option JavaString), (some w : Option JavaString) =>
    exact congrArg some (JavaString.ext (keyString_inj (renderKey_string hv hw)))
  | .string, (none : Option JavaString), _ => cases hv
  | .string, (some _ : Option JavaString), (none : Option JavaString) => cases hw
  | .long, (v : Int64), (w : Int64) => exact Int64.toInt.inj (renderKey_int hv hw)
  | .int, (v : Int32), (w : Int32) => exact Int32.toInt.inj (renderKey_int hv hw)
  | .short, (v : Int16), (w : Int16) => exact Int16.toInt.inj (renderKey_int hv hw)
  | .byte, (v : Int8), (w : Int8) => exact Int8.toInt.inj (renderKey_int hv hw)
  | .char, (v : UInt16), (w : UInt16) =>
    -- a char is a string of one unit, or the escape of a lone surrogate
    obtain ⟨a, ha⟩ := charValue_eq_string v
    obtain ⟨b, hb⟩ := charValue_eq_string w
    have hva : renderKey (charValue v) = some t := hv
    have hwb : renderKey (charValue w) = some t := hw
    rw [ha] at hva
    rw [hb] at hwb
    have hab := renderKey_string hva hwb
    exact charValue_inj (ha.trans ((congrArg Json.string hab).trans hb.symm))
  | .boolean, true, true | .boolean, false, false => rfl
  | .boolean, true, false =>
    exact absurd (Option.some.inj (hv.trans hw.symm)) (show boolText true ≠ boolText false by decide)
  | .boolean, false, true =>
    exact absurd (Option.some.inj (hv.trans hw.symm)) (show boolText false ≠ boolText true by decide)
  | .float, (v : UInt32), (w : UInt32) =>
    exact hF.inj32 v w t (renderKey_float hv) (renderKey_float hw)
  | .double, (v : UInt64), (w : UInt64) =>
    exact hF.inj64 v w t (renderKey_float hv) (renderKey_float hw)
  | .bigInteger, (some v : Option JavaBigInteger), (some w : Option JavaBigInteger) =>
    exact congrArg some (intText_inj (renderKey_string hv hw))
  | .bigInteger, (none : Option JavaBigInteger), _ => cases hv
  | .bigInteger, (some _ : Option JavaBigInteger), (none : Option JavaBigInteger) => cases hw
  | .bigDecimal, (some v : Option JavaBigDecimal), (some w : Option JavaBigDecimal) =>
    obtain ⟨hunscaled, hscale⟩ := bigDecimalToString_inj (renderKey_string hv hw)
    exact congrArg some (Prod.ext hunscaled (Int32.toInt.inj hscale))
  | .bigDecimal, (none : Option JavaBigDecimal), _ => cases hv
  | .bigDecimal, (some _ : Option JavaBigDecimal), (none : Option JavaBigDecimal) => cases hw
  | .date, (v : Int64), (w : Int64) =>
    exact Int64.toInt.inj (millisToIso_inj (renderKey_string hv hw))
  | .localDate, (⟨ya, ma, da⟩ : JavaDate), (⟨yb, mb, db⟩ : JavaDate) =>
    obtain ⟨rfl, rfl, rfl⟩ := dateText_inj (renderKey_string hv hw)
    rfl
  | .byteArray, _, _ | .localDateTime, _, _ | .localTime, _, _ | .instant, _, _
  | .timestamp, _, _ | .enumOrdinal, _, _ | .intArray, _, _ | .longArray, _, _
  | .doubleArray, _, _ | .floatArray, _, _ | .shortArray, _, _ | .booleanArray, _, _
  | .charArray, _, _ => exact absurd hs (by decide)

/-- The same inside a larger text, together with where the key ends. -/
theorem Scalar.jsonText_inj (hF : F.Faithful) {s : Scalar} (hs : s ∈ keyScalars) {v w : s.Val}
    {x y : Text} (hv : s.keyRender F v ≠ .null) (hw : s.keyRender F w ≠ .null)
    (hx : ∀ c ∈ x.head?, isStop c = true) (hy : ∀ c ∈ y.head?, isStop c = true)
    (h : jsonText (s.keyRender F v) ++ x = jsonText (s.keyRender F w) ++ y) :
    s.Same v w ∧ x = y := by
  by_cases hq : s.isQuoted = true
  · obtain ⟨a, ha⟩ := (Scalar.keyRender_quoted hq v).resolve_left hv
    obtain ⟨b, hb⟩ := (Scalar.keyRender_quoted hq w).resolve_left hw
    rw [ha, hb] at h
    obtain ⟨rfl, hxy⟩ := quoted_inj h
    exact ⟨Scalar.keyRender_inj hF hs (t := a) (by rw [ha]; rfl) (by rw [hb]; rfl), hxy⟩
  · rw [Bool.not_eq_true] at hq
    have ha := (Scalar.keyRender_plain hF hs hq v).resolve_left hv
    have hb := (Scalar.keyRender_plain hF hs hq w).resolve_left hw
    obtain ⟨htext, hxy⟩ := append_stop_inj ha.no_stop hb.no_stop hx hy h
    exact ⟨Scalar.keyRender_inj hF hs ha.renderKey (htext ▸ hb.renderKey), hxy⟩

end Scalars

/-! ### Tuples -/

section Tuples

variable {F : FloatText}

theorem hasNull_scalar {s : Scalar} {v : s.Val} (h : hasNull (s.keyRender F v) = false) :
    s.keyRender F v ≠ .null := by
  intro hnull
  rw [hnull] at h
  cases h

mutual

/-- The JSON text of a key without nulls determines it, and where it ends. -/
theorem Ser.jsonText_inj (hF : F.Faithful) (s : Ser) (t : Text) (hs : s.isKeyOf t = true)
    (v w : s.Val) (hv : hasNull (s.keyRender F v) = false)
    (hw : hasNull (s.keyRender F w) = false) (x y : Text) (hx : ∀ c ∈ x.head?, isStop c = true)
    (hy : ∀ c ∈ y.head?, isStop c = true)
    (h : jsonText (s.keyRender F v) ++ x = jsonText (s.keyRender F w) ++ y) :
    s.Same v w ∧ x = y := by
  match s, v, w with
  | .scalar s, v, w =>
    simp only [Ser.isKeyOf, Bool.and_eq_true, List.contains_iff_mem] at hs
    exact Scalar.jsonText_inj hF hs.1 (hasNull_scalar hv) (hasNull_scalar hw) hx hy h
  | .tuple fields, v, w =>
    rw [Ser.isKeyOf, Option.any_eq_true] at hs
    obtain ⟨inner, -, hfields⟩ := hs
    have hitems : itemsText (tupleKeyRender F fields v) ++ ']' :: x
        = itemsText (tupleKeyRender F fields w) ++ ']' :: y := by
      simpa [Ser.keyRender, jsonText] using h
    exact itemsText_inj hF fields _ hfields v w hv hw x y hitems

/-- The same for the fields of a tuple, up to its closing bracket. -/
theorem itemsText_inj (hF : F.Faithful) (fields : List Ser) (ts : List Text)
    (hs : fieldsAreKeysOf fields ts = true) (vs ws : TupleVal fields)
    (hv : anyNull (tupleKeyRender F fields vs) = false)
    (hw : anyNull (tupleKeyRender F fields ws) = false) (x y : Text)
    (h : itemsText (tupleKeyRender F fields vs) ++ ']' :: x
      = itemsText (tupleKeyRender F fields ws) ++ ']' :: y) :
    TupleSame fields vs ws ∧ x = y := by
  have hbracket (z : Text) : ∀ c ∈ (']' :: z).head?, isStop c = true := by
    rintro c ⟨⟩
    rfl
  have hcomma (z : Text) : ∀ c ∈ (',' :: z).head?, isStop c = true := by
    rintro c ⟨⟩
    rfl
  match fields, ts, vs, ws with
  | [], [], _, _ => exact ⟨trivial, (List.cons.inj h).2⟩
  | [s], t :: ts, vs, ws =>
    rw [fieldsAreKeysOf, Bool.and_eq_true] at hs
    simp only [tupleKeyRender, anyNull, Bool.or_eq_false_iff] at hv hw
    obtain ⟨hfield, hrest⟩ := Ser.jsonText_inj hF s (trim t) hs.1 vs.1 ws.1 hv.1 hw.1 _ _
      (hbracket x) (hbracket y) h
    exact ⟨⟨hfield, trivial⟩, (List.cons.inj hrest).2⟩
  | s :: s' :: ss, t :: ts, vs, ws =>
    rw [fieldsAreKeysOf, Bool.and_eq_true] at hs
    rw [tupleKeyRender, anyNull, Bool.or_eq_false_iff] at hv hw
    have hsplit (us : TupleVal (s :: s' :: ss)) (z : Text) :
        itemsText (tupleKeyRender F (s :: s' :: ss) us) ++ ']' :: z
          = jsonText (s.keyRender F us.1)
            ++ ',' :: (itemsText (tupleKeyRender F (s' :: ss) us.2) ++ ']' :: z) := by
      simp [tupleKeyRender, itemsText]
    rw [hsplit, hsplit] at h
    obtain ⟨hfield, hrest⟩ := Ser.jsonText_inj hF s (trim t) hs.1 vs.1 ws.1 hv.1 hw.1 _ _
      (hcomma _) (hcomma _) h
    obtain ⟨hfields, hxy⟩ := itemsText_inj hF (s' :: ss) ts hs.2 vs.2 ws.2 hv.2 hw.2 x y
      (List.cons.inj hrest).2
    exact ⟨⟨hfield, hfields⟩, hxy⟩

end

/-! ### The text of a key -/

/-- A key that is not null but has no text of its own is a tuple or a floating point number. -/
theorem Ser.renderKey_none {s : Ser} {t : Text} (hs : s.isKeyOf t = true) {v : s.Val}
    (hv : ¬ s.IsNull v) (h : renderKey (s.keyRender F v) = none) :
    s = .scalar .float ∨ s = .scalar .double ∨ ∃ fields, s = .tuple fields := by
  match s, v with
  | .tuple fields, _ => exact .inr (.inr ⟨fields, rfl⟩)
  | .scalar .float, _ => exact .inl rfl
  | .scalar .double, _ => exact .inr (.inl rfl)
  | .scalar .string, (none : Option JavaString) => exact absurd rfl hv
  | .scalar .bigInteger, (none : Option JavaBigInteger) => exact absurd rfl hv
  | .scalar .bigDecimal, (none : Option JavaBigDecimal) => exact absurd rfl hv
  | .scalar .string, (some _ : Option JavaString) => cases h
  | .scalar .bigInteger, (some _ : Option JavaBigInteger) => cases h
  | .scalar .bigDecimal, (some _ : Option JavaBigDecimal) => cases h
  | .scalar .long, _ | .scalar .int, _ | .scalar .short, _ | .scalar .byte, _ | .scalar .boolean, _
  | .scalar .date, _ | .scalar .localDate, _ => cases h
  | .scalar .char, (v : UInt16) =>
    obtain ⟨a, ha⟩ := charValue_eq_string v
    have hchar : (Ser.scalar .char).keyRender F v = .string a := ha
    rw [hchar] at h
    cases h
  | .enum _ _, _ | .stringArray, _ | .list _, _ | .array _, _ | .nullable _, _ | .map _ _, _
  | .pojo _ _, _ | .other _ _, _ => cases hs
  | .scalar .byteArray, _ | .scalar .localDateTime, _ | .scalar .localTime, _
  | .scalar .instant, _ | .scalar .timestamp, _ | .scalar .enumOrdinal, _ | .scalar .intArray, _
  | .scalar .longArray, _ | .scalar .doubleArray, _ | .scalar .floatArray, _
  | .scalar .shortArray, _ | .scalar .booleanArray, _ | .scalar .charArray, _ =>
    exact absurd hs (by simp [Ser.isKeyOf, keyScalars])

/-- A key with a text of its own, of a type whose keys can be shown by their bytes, does not
    start with `0x`. -/
theorem Ser.renderKey_ne_opaque (hF : F.Faithful) {s : Ser}
    (hs : s = .scalar .float ∨ s = .scalar .double ∨ ∃ fields, s = .tuple fields) {v : s.Val}
    (bytes : Bytes) : renderKey (s.keyRender F v) ≠ some (opaqueKey bytes) := by
  have hplain {j : Json} (hj : j = .null ∨ j.IsPlain) : renderKey j ≠ some (opaqueKey bytes) := by
    rcases hj with rfl | hj
    · nofun
    · intro h
      rw [hj.renderKey, Option.some.injEq] at h
      match j with
      | .bool true => exact absurd (List.cons.inj h).1 (by decide)
      | .bool false => exact absurd (List.cons.inj h).1 (by decide)
      | .number n =>
        have hnumber : numberText n = opaqueKey bytes := h
        have hx := hj 'x' (by rw [hnumber]; exact List.mem_cons_of_mem _ List.mem_cons_self)
        exact absurd hx (by decide)
  match s, v with
  | .scalar .float, v => exact hplain (Scalar.keyRender_plain hF (by decide) rfl v)
  | .scalar .double, v => exact hplain (Scalar.keyRender_plain hF (by decide) rfl v)
  | .tuple fields, v =>
    intro h
    have hrender : renderKey (.array (tupleKeyRender F fields v)) = some (opaqueKey bytes) := h
    unfold renderKey at hrender
    simp only at hrender
    split at hrender
    · cases hrender
    · exact absurd (List.cons.inj (Option.some.inj hrender)).1 (by decide)

/-- A composite key with a text holds no null, and the text is its JSON text. -/
theorem renderKey_array {items : List Json} {t : Text} (h : renderKey (.array items) = some t) :
    anyNull items = false ∧ t = jsonText (.array items) := by
  unfold renderKey at h
  simp only at h
  split at h
  · cases h
  · rename_i hnull
    exact ⟨by simpa [hasNull] using hnull, (Option.some.inj h).symm⟩

/-- Keys with one text are one key. -/
theorem Ser.keyText_inj (hF : F.Faithful) {s : Ser} {t : Text} (hs : s.isKeyOf t = true)
    {v w : s.Val} (hv : ¬ s.IsNull v) (hw : ¬ s.IsNull w)
    (h : s.keyText F v = s.keyText F w) : s.Same v w := by
  unfold Ser.keyText at h
  rcases hrv : renderKey (s.keyRender F v) with - | tv <;>
    rcases hrw : renderKey (s.keyRender F w) with - | tw <;> rw [hrv, hrw] at h
  · -- Both are shown by their bytes.
    have hbytes := congrArg (· ++ []) (opaqueKey_inj h)
    rw [(Ser.encode_inj s t hs v w [] [] hbytes).1]
    exact Ser.Same.refl s w
  · have hkind := Ser.renderKey_none hs hv hrv
    exact absurd (hrw.trans (congrArg some h.symm)) (Ser.renderKey_ne_opaque hF hkind _)
  · have hkind := Ser.renderKey_none hs hw hrw
    exact absurd (hrv.trans (congrArg some h)) (Ser.renderKey_ne_opaque hF hkind _)
  · -- Both have a text of their own.
    have htext : tv = tw := h
    subst htext
    match s, v, w with
    | .scalar s, v, w =>
      simp only [Ser.isKeyOf, Bool.and_eq_true, List.contains_iff_mem] at hs
      exact Scalar.keyRender_inj hF hs.1 hrv hrw
    | .tuple fields, v, w =>
      obtain ⟨hnv, htv⟩ := renderKey_array hrv
      obtain ⟨hnw, htw⟩ := renderKey_array hrw
      exact (Ser.jsonText_inj hF (.tuple fields) t hs v w hnv hnw [] [] nofun nofun
        (congrArg (· ++ []) (htv.symm.trans htw))).1

end Tuples

/-! ### A printing of floats -/

/-- Zero with its sign, any other number by its bits, nothing for one that is not finite. -/
def printBits (finite : Bool) (signBit bits : Nat) : Option Text :=
  if finite = false then none
  else if bits = 0 then some "0.0".toList
  else if bits = signBit then some "-0.0".toList
  else some (natText bits)

def bitsText : FloatText where
  fromF32 bits := printBits (bits.toNat / 2 ^ 23 % 256 != 255) (2 ^ 31) bits.toNat
  fromF64 bits := printBits (bits.toNat / 2 ^ 52 % 2048 != 2047) (2 ^ 63) bits.toNat

/-- How zero, minus zero and any other number print. -/
theorem printBits_cases {finite : Bool} {signBit bits : Nat} {t : Text}
    (h : printBits finite signBit bits = some t) :
    (bits = 0 ∧ t = "0.0".toList) ∨ (bits = signBit ∧ t = "-0.0".toList) ∨ t = natText bits := by
  unfold printBits at h
  by_cases hfinite : finite = false
  · rw [if_pos hfinite] at h
    cases h
  rw [if_neg hfinite] at h
  by_cases hzero : bits = 0
  · rw [if_pos hzero] at h
    exact .inl ⟨hzero, (Option.some.inj h).symm⟩
  rw [if_neg hzero] at h
  by_cases hsign : bits = signBit
  · rw [if_pos hsign] at h
    exact .inr (.inl ⟨hsign, (Option.some.inj h).symm⟩)
  · rw [if_neg hsign] at h
    exact .inr (.inr (Option.some.inj h).symm)

theorem printBits_inj {finite₁ finite₂ : Bool} {signBit a b : Nat} {t : Text}
    (ha : printBits finite₁ signBit a = some t) (hb : printBits finite₂ signBit b = some t) :
    a = b := by
  -- Only the zeros print with a point.
  have hdot {n : Nat} : '.' ∉ natText n := fun h => absurd (isDigit_of_mem_natText h) (by decide)
  have hzero : '.' ∈ "0.0".toList := by decide
  have hminus : '.' ∈ "-0.0".toList := by decide
  have hne : ("0.0".toList : Text) ≠ "-0.0".toList := by decide
  rcases printBits_cases ha with ⟨ha, hta⟩ | ⟨ha, hta⟩ | hta <;>
    rcases printBits_cases hb with ⟨hb, htb⟩ | ⟨hb, htb⟩ | htb
  · rw [ha, hb]
  · exact absurd (hta.symm.trans htb) hne
  · exact absurd (htb ▸ hta ▸ hzero) hdot
  · exact absurd (htb.symm.trans hta) hne
  · rw [ha, hb]
  · exact absurd (htb ▸ hta ▸ hminus) hdot
  · exact absurd (hta ▸ htb ▸ hzero) hdot
  · exact absurd (hta ▸ htb ▸ hminus) hdot
  · exact natText_inj (hta.symm.trans htb)

theorem isNumberChar_of_printBits {finite : Bool} {signBit bits : Nat} {t : Text}
    (h : printBits finite signBit bits = some t) : ∀ c ∈ t, isNumberChar c = true := by
  rcases printBits_cases h with ⟨-, rfl⟩ | ⟨-, rfl⟩ | rfl
  · simp [isNumberChar]
  · simp [isNumberChar]
  · intro c hc
    simp [isNumberChar, isDigit_of_mem_natText hc]

theorem bitsText_faithful : bitsText.Faithful where
  inj32 _ _ _ ha hb := UInt32.toNat_inj.mp (printBits_inj ha hb)
  inj64 _ _ _ ha hb := UInt64.toNat_inj.mp (printBits_inj ha hb)
  chars32 _ _ h := isNumberChar_of_printBits h
  chars64 _ _ h := isNumberChar_of_printBits h

/-! ### Key rendering is injective -/

section Main

variable {F : FloatText}

/-- **Key rendering is injective.**  Every key type declared so stands for a serializer, and two
    different keys of it, neither of them null, never decode to one text, whatever follows
    them. -/
theorem decodeKey_inj (hF : F.Faithful) {keyType : Text}
    (hinj : keyRendersInjectively keyType = true) :
    (∃ s : Ser, s.isKeyOf keyType = true) ∧
      ∀ s : Ser, s.isKeyOf keyType = true → ∀ v w : s.Val, ¬ s.IsNull v → ¬ s.IsNull w →
        ¬ s.Same v w → ∀ (rest₁ rest₂ : Bytes) (keyPojo : Option PojoInfo) (txt₁ txt₂ : Text)
          (n₁ n₂ : Nat), decodeKey F (s.encode v ++ rest₁) keyType keyPojo = some (txt₁, n₁) →
            decodeKey F (s.encode w ++ rest₂) keyType keyPojo = some (txt₂, n₂) →
              txt₁ ≠ txt₂ := by
  refine ⟨exists_isKeyOf hinj, ?_⟩
  intro s hs v w hv hw hne rest₁ rest₂ keyPojo txt₁ txt₂ n₁ n₂ h₁ h₂ heq
  obtain ⟨-, htv, -⟩ := keyText_of_decodeKey hinj hs h₁
  obtain ⟨-, htw, -⟩ := keyText_of_decodeKey hinj hs h₂
  exact hne (Ser.keyText_inj hF hs hv hw (htv.symm.trans (heq.trans htw)))

theorem oneUnit_short : [(97 : UInt16)].length + 1 < 2 ^ 31 := by decide

/-- A `Tuple<Double,String>` key: a number given by its bits, and `"a"`. -/
def numberKey (bits : UInt64) : (Ser.tuple [.scalar .double, .scalar .string]).Val :=
  let key : TupleVal [.scalar .double, .scalar .string] :=
    (bits, some (JavaString.mk [97] oneUnit_short), ())
  key

theorem encode_numberKey (bits : UInt64) :
    (Ser.tuple [.scalar .double, .scalar .string]).encode (numberKey bits) ++ []
      = writeLong bits.toInt64 ++ [2, 97] := by
  rw [List.append_nil]
  rfl

/-- The keys `(0.0, "a")` and `(-0.0, "a")`. -/
theorem decodeKey_inj_zeros :
    decodeKey bitsText [0, 0, 0, 0, 0, 0, 0, 0, 2, 97] "Tuple<Double,String>".toList none
        = some ("[0.0,\"a\"]".toList, 10) ∧
      decodeKey bitsText [0x80, 0, 0, 0, 0, 0, 0, 0, 2, 97] "Tuple<Double,String>".toList none
        = some ("[-0.0,\"a\"]".toList, 10) ∧
      "[0.0,\"a\"]".toList ≠ "[-0.0,\"a\"]".toList := by
  have hpos : decodeKey bitsText [0, 0, 0, 0, 0, 0, 0, 0, 2, 97] "Tuple<Double,String>".toList none
      = some ("[0.0,\"a\"]".toList, 10) := by decide +kernel
  have hneg : decodeKey bitsText [0x80, 0, 0, 0, 0, 0, 0, 0, 2, 97] "Tuple<Double,String>".toList
      none = some ("[-0.0,\"a\"]".toList, 10) := by decide +kernel
  have hzero : writeLong (0 : UInt64).toInt64 ++ [2, 97] = [0, 0, 0, 0, 0, 0, 0, 0, 2, 97] := by
    decide +kernel
  have hminus : writeLong (0x8000000000000000 : UInt64).toInt64 ++ [2, 97]
      = [0x80, 0, 0, 0, 0, 0, 0, 0, 2, 97] := by decide +kernel
  have hne : ¬ (Ser.tuple [.scalar .double, .scalar .string]).Same (numberKey 0)
      (numberKey 0x8000000000000000) :=
    fun h => absurd h.1 (show ¬ (0 : UInt64) = 0x8000000000000000 by decide)
  have hkeyType : keyRendersInjectively "Tuple<Double,String>".toList = true := by decide +kernel
  have h := (decodeKey_inj bitsText_faithful hkeyType).2 (.tuple [.scalar .double, .scalar .string]) (by decide +kernel)
    (numberKey 0) (numberKey 0x8000000000000000) id id hne [] [] none "[0.0,\"a\"]".toList
    "[-0.0,\"a\"]".toList 10 10
  rw [encode_numberKey, encode_numberKey, hzero, hminus] at h
  exact ⟨hpos, hneg, h hpos hneg⟩

end Main

end FlinkExplorer
