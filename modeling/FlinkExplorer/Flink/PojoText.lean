import FlinkExplorer.Flink.Exact
import FlinkExplorer.Flink.Same
import Mathlib.Data.List.Nodup

namespace FlinkExplorer

open Lib Lib.Read

/-!
# When what a value looks like tells it apart

* `Ser.isExact` — the types whose values never look alike: no strings, no floats, no bytes, no
  times finer than what is shown;
* `Ser.render_inj` — two values of such a type that look alike are the same;
* `Ser.isClear_render` — and they are clear, so their display text tells them as well;
* `Ser.exists_lookalike` — any other type has two values that differ and look alike.
-/

/-! ### Exact types -/

/-- The scalars that look different whenever they are. -/
def Scalar.isExact : Scalar → Bool
  | .int | .long | .boolean | .short | .byte | .char | .bigInteger | .bigDecimal | .localDate
  | .date | .enumOrdinal | .intArray | .longArray | .shortArray | .booleanArray | .charArray => true
  | .double | .float | .string | .byteArray | .localDateTime | .localTime | .instant | .timestamp
  | .doubleArray | .floatArray => false

mutual

/-- Whether a type has a value that the decoder reads. -/
def Ser.hasDecodable : Ser → Bool
  | .enum _ constants => !constants.isEmpty
  | .tuple fields => tupleHasDecodable fields
  | .map _ _ => false
  | .other _ _ => false
  | _ => true

def tupleHasDecodable : List Ser → Bool
  | [] => true
  | s :: ss => s.hasDecodable && tupleHasDecodable ss

end

mutual

/-- Whether the values of a type that the decoder reads look different whenever they are. -/
def Ser.isExact : Ser → Bool
  | .scalar s => s.isExact
  | .stringArray => false
  | .tuple fields => tupleIsExact fields || !tupleHasDecodable fields
  | .list elem => elem.isExact
  | .array elem => elem.isExact
  | .nullable elem => elem.isExact
  | .pojo _ fields => fieldsAreExact fields
  | .enum _ _ => true
  | .map _ _ => true
  | .other _ _ => true

def tupleIsExact : List Ser → Bool
  | [] => true
  | s :: ss => s.isExact && tupleIsExact ss

def fieldsAreExact : List SerField → Bool
  | [] => true
  | f :: fs => f.isExact && fieldsAreExact fs

def SerField.isExact : SerField → Bool
  | .mk _ s => s.isExact

end

/-! ### Types with a value -/

section Decodable

mutual

theorem Ser.hasDecodable_of_withinLimits (s : Ser) (v : s.Val) (hv : s.WithinLimits v) :
    s.hasDecodable = true := by
  match s, v with
  | .enum _ constants, (v : Fin constants.length) =>
    cases constants with
    | nil => exact v.elim0
    | cons c cs => rfl
  | .tuple fields, v => exact tupleHasDecodable_of_withinLimits fields v hv
  | .map _ _, _ => exact hv.elim
  | .other _ _, _ => exact hv.elim
  | .scalar _, _ | .stringArray, _ | .list _, _ | .array _, _ | .nullable _, _ | .pojo _ _, _ => rfl

theorem tupleHasDecodable_of_withinLimits (fields : List Ser) (vs : TupleVal fields)
    (hv : tupleWithinLimits fields vs) : tupleHasDecodable fields = true := by
  match fields, vs with
  | [], _ => rfl
  | s :: ss, vs =>
    rw [tupleHasDecodable, Ser.hasDecodable_of_withinLimits s vs.1 hv.1,
      tupleHasDecodable_of_withinLimits ss vs.2 hv.2]
    rfl

end

/-- An empty list. -/
def JavaList.empty {α : Type} : JavaList α := ⟨[], show 0 < 2 ^ 31 by decide⟩

theorem length_singleton_lt {α : Type} (v : α) : [v].length < 2 ^ 31 := show 1 < 2 ^ 31 by decide

/-- A list of one. -/
def JavaList.singleton {α : Type} (v : α) : JavaList α := ⟨[v], length_singleton_lt v⟩

theorem Scalar.exists_decodable (s : Scalar) : ∃ v : s.Val, s.WithinLimits v := by
  have hempty {α : Type} {n : Nat} : (JavaList.empty : JavaList α).items.length ≤ n := Nat.zero_le _
  have hdate : JavaDate := ⟨0, 0, 0⟩
  have htime : JavaTime := ⟨0, 0, 0, 0⟩
  match s with
  | .int => exact ⟨(0 : Int32), trivial⟩
  | .long => exact ⟨(0 : Int64), trivial⟩
  | .boolean => exact ⟨false, trivial⟩
  | .double => exact ⟨(0 : UInt64), trivial⟩
  | .float => exact ⟨(0 : UInt32), trivial⟩
  | .short => exact ⟨(0 : Int16), trivial⟩
  | .byte => exact ⟨(0 : Int8), trivial⟩
  | .char => exact ⟨(0 : UInt16), trivial⟩
  | .bigInteger => exact ⟨(none : Option JavaBigInteger), nofun⟩
  | .bigDecimal => exact ⟨(none : Option JavaBigDecimal), nofun⟩
  | .string => exact ⟨(none : Option JavaString), trivial⟩
  | .byteArray => exact ⟨(JavaList.empty : JavaList UInt8), hempty⟩
  | .localDateTime => exact ⟨(hdate, htime), trivial⟩
  | .localDate => exact ⟨hdate, trivial⟩
  | .localTime => exact ⟨htime, trivial⟩
  | .instant => exact ⟨JavaInstant.mk 0 0 (by decide) (by decide) (by decide), trivial⟩
  | .date => exact ⟨(0 : Int64), trivial⟩
  | .timestamp => exact ⟨((0 : Int64), (0 : Int32)), trivial⟩
  | .enumOrdinal => exact ⟨(0 : Int32), trivial⟩
  | .intArray => exact ⟨(JavaList.empty : JavaList Int32), hempty⟩
  | .longArray => exact ⟨(JavaList.empty : JavaList Int64), hempty⟩
  | .doubleArray => exact ⟨(JavaList.empty : JavaList UInt64), hempty⟩
  | .floatArray => exact ⟨(JavaList.empty : JavaList UInt32), hempty⟩
  | .shortArray => exact ⟨(JavaList.empty : JavaList Int16), hempty⟩
  | .booleanArray => exact ⟨(JavaList.empty : JavaList Bool), hempty⟩
  | .charArray => exact ⟨(JavaList.empty : JavaList UInt16), hempty⟩

mutual

theorem Ser.exists_decodable (s : Ser) (h : s.hasDecodable = true) :
    ∃ v : s.Val, s.WithinLimits v := by
  match s with
  | .scalar s => exact s.exists_decodable
  | .enum _ (c :: cs) => exact ⟨(⟨0, Nat.succ_pos _⟩ : Fin (c :: cs).length), Nat.two_pow_pos 31⟩
  | .stringArray => exact ⟨(JavaList.empty : JavaList (Option JavaString)), Nat.zero_le _⟩
  | .tuple fields => exact tuple_exists_decodable fields h
  | .list elem =>
    exact ⟨(JavaList.empty : JavaList elem.Val), Nat.zero_le _,
      fun v hv => absurd hv List.not_mem_nil⟩
  | .array elem =>
    exact ⟨(JavaList.empty : JavaList (Option elem.Val)), Nat.zero_le _,
      fun v hv => absurd hv List.not_mem_nil⟩
  | .nullable elem => exact ⟨(none : Option elem.Val), nofun⟩
  | .pojo _ fields => exact ⟨(none : Option (PojoVal fields)), nofun⟩

theorem tuple_exists_decodable (fields : List Ser) (h : tupleHasDecodable fields = true) :
    ∃ vs : TupleVal fields, tupleWithinLimits fields vs := by
  match fields with
  | [] => exact ⟨(), trivial⟩
  | s :: ss =>
    rw [tupleHasDecodable, Bool.and_eq_true] at h
    obtain ⟨v, hv⟩ := Ser.exists_decodable s h.1
    obtain ⟨vs, hvs⟩ := tuple_exists_decodable ss h.2
    exact ⟨(v, vs), hv, hvs⟩

end

end Decodable

/-! ### POJOs without protobuf patterns -/

section Pojo

variable (F : FloatText)

/-- The members of the object of a POJO, inserted into `obj`. -/
def pojoMembers : (fields : List SerField) → PojoVal fields → List (Text × Json) →
    List (Text × Json)
  | [], _, obj => obj
  | .mk name s :: fs, vs, obj =>
    pojoMembers fs vs.2 (objInsert name (vs.1.elim .null (s.render F none)) obj)

theorem captureProtoClass_none (name : Text) (v : Json) (st : PojoState) :
    captureProtoClass none name v st = st := by
  cases v <;> rfl

theorem renderField_none (name : Text) (s : Ser) (st : PojoState) (v : s.Val) :
    (SerField.mk name s).render F none st v = (s.render F none v, st) := by
  by_cases hs : s = .scalar .byteArray
  · subst hs
    have hrender := SerField.render_byteArray F none name st v
    have hpattern : ¬ anyPattern none (·.bytesField = name) = true := Bool.false_ne_true
    rw [if_neg hpattern, captureProtoClass_none] at hrender
    exact hrender
  · rw [SerField.render_of_ne F none name st hs v, captureProtoClass_none]

theorem renderPojo_none (fields : List SerField) (st : PojoState) (vs : PojoVal fields) :
    renderPojo F none fields st vs = .object (pojoMembers F fields vs st.obj) := by
  induction fields generalizing st with
  | nil => rfl
  | cons f fs ih =>
    obtain ⟨name, s⟩ := f
    obtain ⟨x, vs⟩ := vs
    have hfield : (x.elim (.null, st) fun v => (SerField.mk name s).render F none st v)
        = (x.elim .null (s.render F none), st) := by
      cases x with
      | none => rfl
      | some v => exact renderField_none F name s st v
    let obj := objInsert name (x.elim .null (s.render F none)) st.obj
    have hstep : renderPojo F none (.mk name s :: fs) st (x, vs)
        = renderPojo F none fs { st with obj := obj } vs := by
      have hcons := renderPojo.eq_2 F none st (.mk name s) fs (x, vs)
      simp only [hfield] at hcons
      exact hcons
    exact hstep.trans (ih _ vs)

/-- A field that is not among the later ones keeps its member. -/
theorem objGet_pojoMembers {key : Text} (fields : List SerField) (vs : PojoVal fields)
    (obj : List (Text × Json)) (h : key ∉ fieldNames fields) :
    objGet key (pojoMembers F fields vs obj) = objGet key obj := by
  induction fields generalizing obj with
  | nil => rfl
  | cons f fs ih =>
    obtain ⟨name, s⟩ := f
    rw [fieldNames, List.mem_cons, not_or] at h
    have hne : name ≠ key := fun hk => h.1 hk.symm
    have hinsert := objGet_objInsert key name (vs.1.elim .null (s.render F none)) obj
    rw [if_neg hne] at hinsert
    exact (ih vs.2 _ h.2).trans hinsert

theorem membersClear_objInsert {key : Text} (hkey : isFieldName key = true) {v : Json}
    (hv : v.IsClear) {ms : List (Text × Json)} (h : MembersClear ms) :
    MembersClear (objInsert key v ms) := by
  induction ms with
  | nil => exact ⟨hkey, hv, trivial⟩
  | cons m ms ih =>
    obtain ⟨k, w⟩ := m
    unfold objInsert
    by_cases hk : key = k
    · rw [if_pos hk]
      exact ⟨h.1, hv, h.2.2⟩
    · rw [if_neg hk]
      by_cases hlt : textLt key k = true
      · rw [if_pos hlt]
        exact ⟨hkey, hv, h⟩
      · rw [if_neg hlt]
        exact ⟨h.1, h.2.1, ih h.2.2⟩

end Pojo

/-! ### Exact types look different whenever they are -/

section ExactTypes

variable {F : FloatText}

theorem itemsClear_map {α : Type} {render : α → Json} {xs : List α}
    (h : ∀ x ∈ xs, (render x).IsClear) : ItemsClear (xs.map render) := by
  induction xs with
  | nil => trivial
  | cons x xs ih =>
    exact ⟨h x List.mem_cons_self, ih fun y hy => h y (List.mem_cons_of_mem x hy)⟩

theorem isClear_option {α : Type} {render : α → Json} (x : Option α)
    (h : ∀ v ∈ x, (render v).IsClear) : (x.elim .null render).IsClear := by
  cases x with
  | none => trivial
  | some v => exact h v rfl

theorem Scalar.isClear_render {s : Scalar} (hs : s.isExact = true) (v : s.Val) :
    (s.render F v).IsClear := by
  match s, v with
  | .int, _ | .long, _ | .boolean, _ | .short, _ | .byte, _ => trivial
  | .char, v => exact isClear_charValue v
  | .bigInteger, (v : Option JavaBigInteger) =>
    exact isClear_option v fun b _ => (unquoted_intText b.value).isClear
  | .bigDecimal, (v : Option JavaBigDecimal) =>
    exact isClear_option v fun d _ => (unquoted_bigDecimalToString d.unscaled.value _).isClear
  | .localDate, (v : JavaDate) => exact (unquoted_dateText v.year v.month v.day).isClear
  | .date, (v : Int64) => exact (unquoted_millisToIso v.toInt).isClear
  | .enumOrdinal, (v : Int32) =>
    have hopen : Unquoted "ordinal(".toList := by simp
    have hclose : Unquoted ")".toList := by simp
    exact Unquoted.isClear
      (unquoted_append.mpr ⟨unquoted_append.mpr ⟨hopen, unquoted_intText v.toInt⟩, hclose⟩)
  | .intArray, _ | .longArray, _ | .shortArray, _ | .booleanArray, _ =>
    exact itemsClear_map fun _ _ => trivial
  | .charArray, _ => exact itemsClear_map fun u _ => isClear_charValue u

/-- Lists that look alike are alike, when their elements are. -/
theorem forall₂_of_map_eq {α : Type} {render : α → Json} {R : α → α → Prop} {xs ys : List α}
    (h : ∀ x ∈ xs, ∀ y ∈ ys, render x = render y → R x y) (heq : xs.map render = ys.map render) :
    List.Forall₂ R xs ys := by
  induction xs generalizing ys with
  | nil =>
    rw [List.map_nil] at heq
    rw [List.map_eq_nil_iff.mp heq.symm]
    exact .nil
  | cons x xs ih =>
    cases ys with
    | nil => cases heq
    | cons y ys =>
      rw [List.map_cons, List.map_cons, List.cons.injEq] at heq
      exact .cons (h x List.mem_cons_self y List.mem_cons_self heq.1)
        (ih (fun a ha b hb => h a (List.mem_cons_of_mem x ha) b (List.mem_cons_of_mem y hb)) heq.2)

theorem JavaList.ext {α : Type} {a b : JavaList α} (h : a.items = b.items) : a = b := by
  cases a
  cases b
  cases h
  rfl

theorem javaList_inj {α : Type} {render : α → Json} (hinj : Function.Injective render)
    {a b : JavaList α} (h : renderList render a = renderList render b) : a = b :=
  JavaList.ext (List.map_injective_iff.mpr hinj (Json.array.inj h))

theorem json_int_inj {a b : Int} (h : Json.int a = Json.int b) : a = b :=
  Number.int.inj (Json.number.inj h)

/-- Values of an exact scalar that look alike are the same. -/
theorem Scalar.render_inj {s : Scalar} (hs : s.isExact = true) {v w : s.Val}
    (h : s.render F v = s.render F w) : s.Same v w := by
  match s, v, w with
  | .int, (v : Int32), (w : Int32) => exact Int32.toInt.inj (json_int_inj h)
  | .long, (v : Int64), (w : Int64) => exact Int64.toInt.inj (json_int_inj h)
  | .short, (v : Int16), (w : Int16) => exact Int16.toInt.inj (json_int_inj h)
  | .byte, (v : Int8), (w : Int8) => exact Int8.toInt.inj (json_int_inj h)
  | .boolean, (v : Bool), (w : Bool) => exact Json.bool.inj h
  | .char, (v : UInt16), (w : UInt16) => exact charValue_inj h
  | .bigInteger, (none : Option JavaBigInteger), (none : Option JavaBigInteger) => rfl
  | .bigInteger, (some v : Option JavaBigInteger), (some w : Option JavaBigInteger) =>
    exact congrArg some (intText_inj (Json.string.inj h))
  | .bigInteger, (none : Option JavaBigInteger), (some _ : Option JavaBigInteger) => cases h
  | .bigInteger, (some _ : Option JavaBigInteger), (none : Option JavaBigInteger) => cases h
  | .bigDecimal, (none : Option JavaBigDecimal), (none : Option JavaBigDecimal) => rfl
  | .bigDecimal, (some v : Option JavaBigDecimal), (some w : Option JavaBigDecimal) =>
    obtain ⟨hunscaled, hscale⟩ := bigDecimalToString_inj (Json.string.inj h)
    exact congrArg some (Prod.ext hunscaled (Int32.toInt.inj hscale))
  | .bigDecimal, (none : Option JavaBigDecimal), (some _ : Option JavaBigDecimal) => cases h
  | .bigDecimal, (some _ : Option JavaBigDecimal), (none : Option JavaBigDecimal) => cases h
  | .localDate, (⟨ya, ma, da⟩ : JavaDate), (⟨yb, mb, db⟩ : JavaDate) =>
    obtain ⟨rfl, rfl, rfl⟩ := dateText_inj (Json.string.inj h)
    rfl
  | .date, (v : Int64), (w : Int64) => exact Int64.toInt.inj (millisToIso_inj (Json.string.inj h))
  | .enumOrdinal, (v : Int32), (w : Int32) =>
    have htext := List.append_cancel_left (List.append_cancel_right (Json.string.inj h))
    exact Int32.toInt.inj (intText_inj htext)
  | .intArray, (v : JavaList Int32), (w : JavaList Int32) =>
    exact javaList_inj (fun a b hab => Int32.toInt.inj (json_int_inj hab)) h
  | .longArray, (v : JavaList Int64), (w : JavaList Int64) =>
    exact javaList_inj (fun a b hab => Int64.toInt.inj (json_int_inj hab)) h
  | .shortArray, (v : JavaList Int16), (w : JavaList Int16) =>
    exact javaList_inj (fun a b hab => Int16.toInt.inj (json_int_inj hab)) h
  | .booleanArray, (v : JavaList Bool), (w : JavaList Bool) =>
    exact javaList_inj (fun a b hab => Json.bool.inj hab) h
  | .charArray, (v : JavaList UInt16), (w : JavaList UInt16) =>
    exact javaList_inj (fun a b hab => charValue_inj hab) h

/-- Of the exact scalars only a null one looks like null. -/
theorem Scalar.isNull_of_render {s : Scalar} (hs : s.isExact = true) {v : s.Val}
    (h : s.render F v = .null) : (Ser.scalar s).IsNull v := by
  match s, v with
  | .bigInteger, (none : Option JavaBigInteger) => rfl
  | .bigDecimal, (none : Option JavaBigDecimal) => rfl
  | .bigInteger, (some _ : Option JavaBigInteger) => cases h
  | .bigDecimal, (some _ : Option JavaBigDecimal) => cases h
  | .char, (v : UInt16) =>
    obtain ⟨t, ht⟩ : ∃ t, charValue v = .string t := by
      unfold charValue
      split <;> exact ⟨_, rfl⟩
    cases ht.symm.trans h
  | .int, _ | .long, _ | .boolean, _ | .short, _ | .byte, _ | .localDate, _ | .date, _
  | .enumOrdinal, _ | .intArray, _ | .longArray, _ | .shortArray, _ | .booleanArray, _
  | .charArray, _ => cases h

theorem isClear_constant {constants : List Text} (h : constants.all isConstantName = true)
    {c : Text} (hc : c ∈ constants) : (Json.string c).IsClear := by
  have hname := List.all_eq_true.mp h c hc
  have hmem (d : Char) (h : c.contains d = false) : d ∉ c := fun hc => by
    rw [List.contains_iff_mem.mpr hc] at h
    cases h
  simp only [isConstantName, isJavaName, Bool.and_eq_true, Bool.not_eq_true'] at hname
  exact ⟨isMarker_eq_false (hmem _ hname.1.2), .inl (hmem _ hname.2)⟩

/-- A tuple type that is exact only because it is never decoded has no value here. -/
theorem tupleIsExact_of_withinLimits {fields : List Ser}
    (hx : (Ser.tuple fields).isExact = true) {vs : TupleVal fields}
    (hv : tupleWithinLimits fields vs) : tupleIsExact fields = true := by
  have hdecodable := tupleHasDecodable_of_withinLimits fields vs hv
  rw [Ser.isExact, hdecodable] at hx
  simpa using hx

mutual

/-- An exact type looks clear. -/
theorem Ser.isClear_render (s : Ser) (hx : s.isExact = true) (hj : s.isJava = true) (v : s.Val)
    (hv : s.WithinLimits v) : (s.render F none v).IsClear := by
  match s, v with
  | .scalar s, v => exact Scalar.isClear_render hx v
  | .enum _ constants, (v : Fin constants.length) =>
    simp only [Ser.isJava, Bool.and_eq_true] at hj
    exact isClear_constant hj.1.1 (List.get_mem constants v)
  | .tuple fields, v =>
    exact tuple_isClear_render fields (tupleIsExact_of_withinLimits hx hv) hj v hv
  | .list elem, (v : JavaList elem.Val) =>
    exact itemsClear_map fun x hx' => Ser.isClear_render elem hx hj x (hv.2 x hx')
  | .array elem, (v : JavaList (Option elem.Val)) =>
    exact itemsClear_map fun x hx' =>
      isClear_option x fun y hy => Ser.isClear_render elem hx hj y (hv.2 x hx' y hy)
  | .nullable elem, (v : Option elem.Val) =>
    exact isClear_option v fun y hy => Ser.isClear_render elem hx hj y (hv y hy)
  | .pojo _ fields, (v : Option (PojoVal fields)) =>
    rw [Ser.isJava, Bool.and_eq_true] at hj
    refine isClear_option v fun vs hvs => ?_
    rw [renderPojo_none]
    exact pojo_isClear_render fields hx hj.1 vs (hv vs hvs) [] trivial
  | .map _ _, _ => exact hv.elim
  | .other _ _, _ => exact hv.elim

theorem tuple_isClear_render (fields : List Ser) (hx : tupleIsExact fields = true)
    (hj : tupleIsJava fields = true) (vs : TupleVal fields) (hv : tupleWithinLimits fields vs) :
    ItemsClear (renderTuple F none fields vs) := by
  match fields, vs with
  | [], _ => trivial
  | s :: ss, vs =>
    rw [tupleIsExact, Bool.and_eq_true] at hx
    rw [tupleIsJava, Bool.and_eq_true] at hj
    exact ⟨Ser.isClear_render s hx.1 hj.1 vs.1 hv.1, tuple_isClear_render ss hx.2 hj.2 vs.2 hv.2⟩

theorem pojo_isClear_render (fields : List SerField) (hx : fieldsAreExact fields = true)
    (hj : fieldsAreJava fields = true) (vs : PojoVal fields) (hv : pojoWithinLimits fields vs)
    (obj : List (Text × Json)) (hobj : MembersClear obj) :
    MembersClear (pojoMembers F fields vs obj) := by
  match fields, vs with
  | [], _ => exact hobj
  | .mk name s :: fs, vs =>
    rw [fieldsAreExact, Bool.and_eq_true] at hx
    rw [fieldsAreJava, Bool.and_eq_true, SerField.isJava, Bool.and_eq_true] at hj
    refine pojo_isClear_render fs hx.2 hj.2 vs.2 hv.2 _ (membersClear_objInsert hj.1.1 ?_ hobj)
    exact isClear_option vs.1 fun v hmem => Ser.isClear_render s hx.1 hj.1.2 v (hv.1 v hmem)

end

/-- Of an exact type only a null value looks like null. -/
theorem Ser.isNull_of_render (s : Ser) (hx : s.isExact = true) (v : s.Val)
    (hv : s.WithinLimits v) (h : s.render F none v = .null) : s.IsNull v := by
  match s, v with
  | .scalar s, v => exact Scalar.isNull_of_render hx h
  | .nullable elem, (none : Option elem.Val) => exact nofun
  | .nullable elem, (some x : Option elem.Val) =>
    rintro y ⟨⟩
    exact Ser.isNull_of_render elem hx x (hv x rfl) h
  | .pojo _ fields, (none : Option (PojoVal fields)) => rfl
  | .pojo _ fields, (some vs : Option (PojoVal fields)) =>
    have hobject : renderPojo F none fields ⟨[], none, none⟩ vs = .null := h
    rw [renderPojo_none] at hobject
    cases hobject
  | .enum _ _, _ | .tuple _, _ | .list _, _ | .array _, _ => cases h
  | .map _ _, _ => exact hv.elim
  | .other _ _, _ => exact hv.elim

theorem optionSame_of_render {s : Ser} (hx : s.isExact = true)
    (hinj : ∀ v w : s.Val, s.WithinLimits v → s.WithinLimits w →
      s.render F none v = s.render F none w → s.Same v w) {x y : Option s.Val}
    (hv : ∀ v ∈ x, s.WithinLimits v) (hw : ∀ w ∈ y, s.WithinLimits w)
    (h : x.elim .null (s.render F none) = y.elim .null (s.render F none)) :
    OptionSame s.IsNull s.Same x y := by
  match x, y with
  | none, none => trivial
  | none, some w => exact Ser.isNull_of_render s hx w (hw w rfl) h.symm
  | some v, none => exact Ser.isNull_of_render s hx v (hv v rfl) h
  | some v, some w => exact hinj v w (hv v rfl) (hw w rfl) h

mutual

/-- **Values of an exact type that look alike are the same.** -/
theorem Ser.render_inj (s : Ser) (hx : s.isExact = true) (hj : s.isJava = true) (v w : s.Val)
    (hv : s.WithinLimits v) (hw : s.WithinLimits w) (h : s.render F none v = s.render F none w) :
    s.Same v w := by
  match s, v, w with
  | .scalar s, v, w => exact Scalar.render_inj hx h
  | .enum _ constants, (v : Fin constants.length), (w : Fin constants.length) =>
    simp only [Ser.isJava, Bool.and_eq_true, decide_eq_true_eq] at hj
    exact hj.1.2.get_inj_iff.mp (Json.string.inj h)
  | .tuple fields, v, w =>
    exact tuple_render_inj fields (tupleIsExact_of_withinLimits hx hv) hj v w hv hw
      (Json.array.inj h)
  | .list elem, (v : JavaList elem.Val), (w : JavaList elem.Val) =>
    exact forall₂_of_map_eq (fun x hx' y hy' =>
      Ser.render_inj elem hx hj x y (hv.2 x hx') (hw.2 y hy')) (Json.array.inj h)
  | .array elem, (v : JavaList (Option elem.Val)), (w : JavaList (Option elem.Val)) =>
    exact forall₂_of_map_eq (fun x hx' y hy' =>
      optionSame_of_render (s := elem) hx (Ser.render_inj elem hx hj) (hv.2 x hx') (hw.2 y hy'))
      (Json.array.inj h)
  | .nullable elem, (v : Option elem.Val), (w : Option elem.Val) =>
    exact optionSame_of_render (s := elem) hx (Ser.render_inj elem hx hj) hv hw h
  | .pojo _ fields, (none : Option (PojoVal fields)), (none : Option (PojoVal fields)) => trivial
  | .pojo _ fields, (some vs : Option (PojoVal fields)), (none : Option (PojoVal fields)) =>
    have hobject : renderPojo F none fields ⟨[], none, none⟩ vs = .null := h
    rw [renderPojo_none] at hobject
    cases hobject
  | .pojo _ fields, (none : Option (PojoVal fields)), (some ws : Option (PojoVal fields)) =>
    have hobject : .null = renderPojo F none fields ⟨[], none, none⟩ ws := h
    rw [renderPojo_none] at hobject
    cases hobject
  | .pojo _ fields, (some vs : Option (PojoVal fields)), (some ws : Option (PojoVal fields)) =>
    rw [Ser.isJava, Bool.and_eq_true, decide_eq_true_eq] at hj
    have hobject : renderPojo F none fields ⟨[], none, none⟩ vs
        = renderPojo F none fields ⟨[], none, none⟩ ws := h
    rw [renderPojo_none, renderPojo_none] at hobject
    exact pojo_render_inj fields hx hj.1 hj.2 vs ws (hv vs rfl) (hw ws rfl) [] []
      (Json.object.inj hobject)
  | .map _ _, _, _ => exact hv.elim
  | .other _ _, _, _ => exact hv.elim

theorem tuple_render_inj (fields : List Ser) (hx : tupleIsExact fields = true)
    (hj : tupleIsJava fields = true) (vs ws : TupleVal fields) (hv : tupleWithinLimits fields vs)
    (hw : tupleWithinLimits fields ws)
    (h : renderTuple F none fields vs = renderTuple F none fields ws) :
    TupleSame fields vs ws := by
  match fields, vs, ws with
  | [], _, _ => trivial
  | s :: ss, vs, ws =>
    rw [tupleIsExact, Bool.and_eq_true] at hx
    rw [tupleIsJava, Bool.and_eq_true] at hj
    rw [renderTuple, renderTuple, List.cons.injEq] at h
    exact ⟨Ser.render_inj s hx.1 hj.1 vs.1 ws.1 hv.1 hw.1 h.1,
      tuple_render_inj ss hx.2 hj.2 vs.2 ws.2 hv.2 hw.2 h.2⟩

/-- Every field of a POJO is a member of its own in the object. -/
theorem pojo_render_inj (fields : List SerField) (hx : fieldsAreExact fields = true)
    (hj : fieldsAreJava fields = true) (hnodup : (fieldNames fields).Nodup)
    (vs ws : PojoVal fields) (hv : pojoWithinLimits fields vs) (hw : pojoWithinLimits fields ws)
    (obj₁ obj₂ : List (Text × Json))
    (h : pojoMembers F fields vs obj₁ = pojoMembers F fields ws obj₂) : PojoSame fields vs ws := by
  match fields, vs, ws with
  | [], _, _ => trivial
  | .mk name s :: fs, vs, ws =>
    rw [fieldsAreExact, Bool.and_eq_true] at hx
    rw [fieldsAreJava, Bool.and_eq_true, SerField.isJava, Bool.and_eq_true] at hj
    rw [fieldNames, List.nodup_cons] at hnodup
    have hmember (us : PojoVal (.mk name s :: fs)) (obj : List (Text × Json)) :
        objGet name (pojoMembers F (.mk name s :: fs) us obj)
          = some (us.1.elim .null (s.render F none)) := by
      have hinsert := objGet_objInsert name name (us.1.elim .null (s.render F none)) obj
      rw [if_pos rfl] at hinsert
      exact (objGet_pojoMembers F fs us.2 _ hnodup.1).trans hinsert
    have hget := congrArg (objGet name) h
    rw [hmember, hmember] at hget
    refine ⟨optionSame_of_render (s := s) hx.1 (Ser.render_inj s hx.1 hj.1.2) hv.1 hw.1
      (Option.some.inj hget), ?_⟩
    exact pojo_render_inj fs hx.2 hj.2 hnodup.2 vs.2 ws.2 hv.2 hw.2 _ _ h

end

end ExactTypes

/-! ### Any other type has values that differ and look alike -/

/-- A float that is not finite has no JSON form. -/
structure FloatText.FiniteOnly (F : FloatText) : Prop where
  fromF32 : ∀ bits : UInt32, bits.toNat / 2 ^ 23 % 256 = 255 → F.fromF32 bits = none
  fromF64 : ∀ bits : UInt64, bits.toNat / 2 ^ 52 % 2048 = 2047 → F.fromF64 bits = none

section Collisions

variable (F : FloatText)

/-- Two values that the decoder reads, that differ and look alike. -/
structure Ser.Lookalike (s : Ser) (v w : s.Val) : Prop where
  left : s.WithinLimits v
  right : s.WithinLimits w
  differ : ¬ s.Same v w
  alike : s.render F none v = s.render F none w

variable {F}

/-- A string of one unit. -/
def JavaString.unit (u : UInt16) : JavaString := ⟨[u], show 2 < 2 ^ 31 by decide⟩

theorem JavaList.singleton_inj {α : Type} {v w : α}
    (h : JavaList.singleton v = JavaList.singleton w) : v = w :=
  (List.cons.inj (JavaList.mk.inj h)).1

theorem some_unit_inj {u v : UInt16} (h : some (JavaString.unit u) = some (JavaString.unit v)) :
    u = v :=
  (List.cons.inj (JavaString.mk.inj (Option.some.inj h))).1

/-- Two lone surrogates print as U+FFFD each. -/
theorem renderString_lone :
    renderString (some (JavaString.unit 0xD800)) = renderString (some (JavaString.unit 0xD801)) :=
  congrArg Json.string (show textOfUnits [0xD800] = textOfUnits [0xD801] by decide)

theorem lone_ne : some (JavaString.unit 0xD800) ≠ some (JavaString.unit 0xD801) :=
  fun h => absurd (some_unit_inj h) (by decide)

/-- The fraction of a second is cut after three digits. -/
theorem renderTime_nano : renderTime ⟨0, 0, 0, 1⟩ = renderTime ⟨0, 0, 0, 2⟩ := by decide

/-- The infinities, by their bits. -/
theorem fromF64_inf (hF : F.FiniteOnly) :
    F.fromF64 0x7FF0000000000000 = none ∧ F.fromF64 0xFFF0000000000000 = none :=
  ⟨hF.fromF64 _ (by decide), hF.fromF64 _ (by decide)⟩

theorem fromF32_inf (hF : F.FiniteOnly) :
    F.fromF32 0x7F800000 = none ∧ F.fromF32 0xFF800000 = none :=
  ⟨hF.fromF32 _ (by decide), hF.fromF32 _ (by decide)⟩

/-- A scalar type that is not exact has two values that are stored differently and look alike: strings
    of one lone surrogate, bytes that are no text, times a nanosecond apart, the infinities. -/
theorem Scalar.exists_alike (hF : F.FiniteOnly) {s : Scalar} (hx : s.isExact = false) :
    ∃ v w : s.Val, s.WithinLimits v ∧ s.WithinLimits w ∧ s.encode v ≠ s.encode w
      ∧ s.render F v = s.render F w := by
  -- Two values that differ where their texts do not show it.
  have hone {α : Type} {v : α} : (JavaList.singleton v).items.length ≤ 1000000 :=
    show 1 ≤ 1000000 by decide
  have hbyte {v : UInt8} : (JavaList.singleton v).items.length ≤ 10000000 :=
    show 1 ≤ 10000000 by decide
  match s with
  | .string =>
    -- a lone surrogate is shown as U+FFFD
    exact ⟨some (JavaString.unit 0xD800), some (JavaString.unit 0xD801), trivial, trivial,
      by decide, renderString_lone⟩
  | .byteArray =>
    exact ⟨(JavaList.singleton 0xFE : JavaList UInt8), (JavaList.singleton 0xFF : JavaList UInt8),
      hbyte, hbyte, by decide, show bytesToValue [0xFE] = bytesToValue [0xFF] from rfl⟩
  | .localTime =>
    -- only whole milliseconds are shown
    exact ⟨JavaTime.mk 0 0 0 1, JavaTime.mk 0 0 0 2, trivial, trivial, by decide,
      congrArg Json.string renderTime_nano⟩
  | .localDateTime =>
    exact ⟨(JavaDate.mk 0 0 0, JavaTime.mk 0 0 0 1), (JavaDate.mk 0 0 0, JavaTime.mk 0 0 0 2),
      trivial, trivial, by decide,
      congrArg (fun t => Json.string (renderDate ⟨0, 0, 0⟩ ++ 'T' :: t)) renderTime_nano⟩
  | .instant =>
    exact ⟨JavaInstant.mk 0 0 (by decide) (by decide) (by decide),
      JavaInstant.mk 0 1 (by decide) (by decide) (by decide), trivial, trivial, by decide, rfl⟩
  | .timestamp =>
    -- the nanoseconds of a timestamp are not shown
    exact ⟨((0 : Int64), (0 : Int32)), ((0 : Int64), (1 : Int32)), trivial, trivial, by decide, rfl⟩
  | .double =>
    -- the infinities are both shown as null
    refine ⟨(0x7FF0000000000000 : UInt64), (0xFFF0000000000000 : UInt64), trivial, trivial,
      by decide, ?_⟩
    show Json.float (F.fromF64 _) = Json.float (F.fromF64 _)
    rw [(fromF64_inf hF).1, (fromF64_inf hF).2]
  | .float =>
    refine ⟨(0x7F800000 : UInt32), (0xFF800000 : UInt32), trivial, trivial, by decide, ?_⟩
    show Json.float (F.fromF32 _) = Json.float (F.fromF32 _)
    rw [(fromF32_inf hF).1, (fromF32_inf hF).2]
  | .doubleArray =>
    refine ⟨(JavaList.singleton 0x7FF0000000000000 : JavaList UInt64),
      (JavaList.singleton 0xFFF0000000000000 : JavaList UInt64), hone, hone, by decide, ?_⟩
    show Json.array [Json.float (F.fromF64 _)] = Json.array [Json.float (F.fromF64 _)]
    rw [(fromF64_inf hF).1, (fromF64_inf hF).2]
  | .floatArray =>
    refine ⟨(JavaList.singleton 0x7F800000 : JavaList UInt32),
      (JavaList.singleton 0xFF800000 : JavaList UInt32), hone, hone, by decide, ?_⟩
    show Json.array [Json.float (F.fromF32 _)] = Json.array [Json.float (F.fromF32 _)]
    rw [(fromF32_inf hF).1, (fromF32_inf hF).2]
  | .int | .long | .boolean | .short | .byte | .char | .bigInteger | .bigDecimal | .localDate
  | .date | .enumOrdinal | .intArray | .longArray | .shortArray | .booleanArray | .charArray =>
    cases hx

/-- They are no more the same than their bytes are. -/
theorem Scalar.exists_lookalike (hF : F.FiniteOnly) {s : Scalar} (hx : s.isExact = false) :
    ∃ v w : s.Val, (Ser.scalar s).Lookalike F v w := by
  obtain ⟨v, w, hv, hw, hne, halike⟩ := Scalar.exists_alike hF hx
  refine ⟨v, w, hv, hw, fun hsame => hne ?_, halike⟩
  cases s with
  | bigInteger | bigDecimal => cases hx
  | _ => exact congrArg _ hsame

/-- Every field null. -/
def nullPojo : (fields : List SerField) → PojoVal fields
  | [] => ()
  | _ :: fs => (none, nullPojo fs)

theorem withinLimits_nullPojo (fields : List SerField) :
    pojoWithinLimits fields (nullPojo fields) := by
  induction fields with
  | nil => trivial
  | cons f fs ih => exact ⟨nofun, ih⟩

mutual

/-- **A type that is not exact has two values that look alike.** -/
theorem Ser.exists_lookalike (hF : F.FiniteOnly) (s : Ser) (hx : s.isExact = false) :
    ∃ v w : s.Val, s.Lookalike F v w := by
  -- An induction on the serializer: two values that look alike inside one container.
  match s with
  | .scalar s => exact Scalar.exists_lookalike hF hx
  | .stringArray =>
    refine ⟨(JavaList.singleton (some (JavaString.unit 0xD800)) : JavaList (Option JavaString)),
      (JavaList.singleton (some (JavaString.unit 0xD801)) : JavaList (Option JavaString)),
      Nat.le_of_ble_eq_true rfl, Nat.le_of_ble_eq_true rfl, ?_, ?_⟩
    · exact fun h => lone_ne (JavaList.singleton_inj h)
    · exact congrArg (fun j => Json.array [j]) renderString_lone
  | .tuple fields =>
    rw [Ser.isExact, Bool.or_eq_false_iff, Bool.not_eq_false'] at hx
    obtain ⟨vs, ws, hv, hw, hne, halike⟩ := tuple_exists_lookalike hF fields hx.1 hx.2
    exact ⟨vs, ws, hv, hw, hne, congrArg Json.array halike⟩
  | .list elem =>
    obtain ⟨v, w, hv, hw, hne, halike⟩ := Ser.exists_lookalike hF elem hx
    have hlimit {u : elem.Val} (hu : elem.WithinLimits u) :
        (Ser.list elem).WithinLimits (JavaList.singleton u) :=
      ⟨Nat.le_of_ble_eq_true rfl, fun x h => List.mem_singleton.mp h ▸ hu⟩
    refine ⟨(JavaList.singleton v : JavaList elem.Val), (JavaList.singleton w : JavaList elem.Val),
      hlimit hv, hlimit hw, ?_, ?_⟩
    · exact fun h => hne (List.forall₂_cons.mp (show List.Forall₂ elem.Same [v] [w] from h)).1
    · exact congrArg (fun j => Json.array [j]) halike
  | .array elem =>
    obtain ⟨v, w, hv, hw, hne, halike⟩ := Ser.exists_lookalike hF elem hx
    have hlimit {u : elem.Val} (hu : elem.WithinLimits u) :
        (Ser.array elem).WithinLimits (JavaList.singleton (some u)) := by
      refine ⟨Nat.le_of_ble_eq_true rfl, fun x h y hy => ?_⟩
      cases List.mem_singleton.mp h
      cases hy
      exact hu
    refine ⟨(JavaList.singleton (some v) : JavaList (Option elem.Val)),
      (JavaList.singleton (some w) : JavaList (Option elem.Val)), hlimit hv, hlimit hw, ?_, ?_⟩
    · have hhead (h : List.Forall₂ (OptionSame elem.IsNull elem.Same) [some v] [some w]) :
          elem.Same v w := (List.forall₂_cons.mp h).1
      exact fun h => hne (hhead h)
    · exact congrArg (fun j => Json.array [j]) halike
  | .nullable elem =>
    obtain ⟨v, w, hv, hw, hne, halike⟩ := Ser.exists_lookalike hF elem hx
    exact ⟨(some v : Option elem.Val), (some w : Option elem.Val), fun x hx' => by cases hx'; exact hv,
      fun x hx' => by cases hx'; exact hw, hne, halike⟩
  | .pojo _ fields =>
    obtain ⟨vs, ws, hv, hw, hne, halike⟩ := pojo_exists_lookalike hF fields hx
    refine ⟨(some vs : Option (PojoVal fields)), (some ws : Option (PojoVal fields)),
      fun x hx' => by cases hx'; exact hv, fun x hx' => by cases hx'; exact hw, hne, ?_⟩
    show renderPojo F none fields _ vs = renderPojo F none fields _ ws
    rw [renderPojo_none, renderPojo_none, halike]
  -- these are exact, so there is nothing to show
  | .enum _ _ | .map _ _ | .other _ _ => cases hx

theorem tuple_exists_lookalike (hF : F.FiniteOnly) (fields : List Ser)
    (hx : tupleIsExact fields = false) (hd : tupleHasDecodable fields = true) :
    ∃ vs ws : TupleVal fields, tupleWithinLimits fields vs ∧ tupleWithinLimits fields ws ∧
      ¬ TupleSame fields vs ws ∧ renderTuple F none fields vs = renderTuple F none fields ws := by
  match fields with
  | [] => cases hx
  | s :: ss =>
    rw [tupleHasDecodable, Bool.and_eq_true] at hd
    by_cases hs : s.isExact = false
    · obtain ⟨v, w, hv, hw, hne, halike⟩ := Ser.exists_lookalike hF s hs
      obtain ⟨vs, hvs⟩ := tuple_exists_decodable ss hd.2
      exact ⟨(v, vs), (w, vs), ⟨hv, hvs⟩, ⟨hw, hvs⟩, fun h => hne h.1,
        congrArg (· :: renderTuple F none ss vs) halike⟩
    · rw [Bool.not_eq_false] at hs
      rw [tupleIsExact, hs, Bool.true_and] at hx
      obtain ⟨v, hv⟩ := Ser.exists_decodable s hd.1
      obtain ⟨vs, ws, hvs, hws, hne, halike⟩ := tuple_exists_lookalike hF ss hx hd.2
      exact ⟨(v, vs), (v, ws), ⟨hv, hvs⟩, ⟨hv, hws⟩, fun h => hne h.2,
        congrArg (s.render F none v :: ·) halike⟩

theorem pojo_exists_lookalike (hF : F.FiniteOnly) (fields : List SerField)
    (hx : fieldsAreExact fields = false) :
    ∃ vs ws : PojoVal fields, pojoWithinLimits fields vs ∧ pojoWithinLimits fields ws ∧
      ¬ PojoSame fields vs ws ∧ pojoMembers F fields vs = pojoMembers F fields ws := by
  match fields with
  | [] => cases hx
  | .mk name s :: fs =>
    rw [fieldsAreExact, SerField.isExact] at hx
    by_cases hs : s.isExact = false
    · obtain ⟨v, w, hv, hw, hne, halike⟩ := Ser.exists_lookalike hF s hs
      have hnull := withinLimits_nullPojo fs
      refine ⟨((some v : Option s.Val), nullPojo fs), ((some w : Option s.Val), nullPojo fs),
        ⟨fun x hx' => by cases hx'; exact hv, hnull⟩, ⟨fun x hx' => by cases hx'; exact hw, hnull⟩,
        fun h => hne h.1, ?_⟩
      funext obj
      show pojoMembers F fs _ (objInsert name (s.render F none v) obj)
        = pojoMembers F fs _ (objInsert name (s.render F none w) obj)
      rw [halike]
    · rw [Bool.not_eq_false] at hs
      rw [hs, Bool.true_and] at hx
      obtain ⟨vs, ws, hvs, hws, hne, halike⟩ := pojo_exists_lookalike hF fs hx
      refine ⟨((none : Option s.Val), vs), ((none : Option s.Val), ws), ⟨nofun, hvs⟩, ⟨nofun, hws⟩,
        fun h => hne h.2, ?_⟩
      funext obj
      exact congrFun halike _

end

end Collisions

end FlinkExplorer
