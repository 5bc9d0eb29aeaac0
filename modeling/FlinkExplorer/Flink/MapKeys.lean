import FlinkExplorer.Flink.PojoText
import FlinkExplorer.Parser.Canonical

namespace FlinkExplorer

open Lib Lib.Read

/-!
# When the keys of a map are told apart

A map key is shown as the text of what it decodes to: a string as it is, anything else as JSON, a
null as `[null]`, and a key that does not decode as a marker with the index of its entry.

* `Ser.keepsKeys` — the types whose stored keys have texts of their own;
* `Ser.mapKeyText_inj` — of such a type, keys of one text have the same bytes;
* `Ser.exists_sameText` — any other type has two keys of one text that are stored differently.
-/

/-! ### Types that show their bytes -/

/-- Whether a type has a null of its own. -/
def Ser.canBeNull : Ser → Bool
  | .scalar .string | .scalar .bigInteger | .scalar .bigDecimal => true
  | .nullable _ => true
  | .pojo _ _ => true
  | _ => false

/-- The scalars of which each look is stored in one way: the exact ones but for the big numbers,
    whose constants are written in a form of their own. -/
def Scalar.showsBytes : Scalar → Bool
  | .bigInteger | .bigDecimal => false
  | s => s.isExact

mutual

/-- Whether each look of a type is stored in one way.  A POJO is no map key without its layout. -/
def Ser.showsBytes : Ser → Bool
  | .scalar s => s.showsBytes
  | .stringArray => false
  | .tuple fields => tupleShowsBytes fields || !tupleHasDecodable fields
  | .list elem => elem.showsBytes
  | .array elem => elem.showsBytes && !elem.canBeNull
  | .nullable elem => elem.showsBytes && !elem.canBeNull
  | .pojo _ _ => false
  | .enum _ _ => true
  | .map _ _ => true
  | .other _ _ => true

def tupleShowsBytes : List Ser → Bool
  | [] => true
  | s :: ss => s.showsBytes && tupleShowsBytes ss

end

section Text

variable {F : FloatText} {proto : Option ProtoContext}

theorem Scalar.isExact_of_showsBytes {s : Scalar} (hx : s.showsBytes = true) :
    s.isExact = true := by
  cases s <;> first | rfl | cases hx

/-- The same scalars are stored as the same bytes. -/
theorem Scalar.encode_of_render {s : Scalar} (hx : s.showsBytes = true) {v w : s.Val}
    (h : s.render F v = s.render F w) : s.encode v = s.encode w := by
  have hsame := Scalar.render_inj (Scalar.isExact_of_showsBytes hx) h
  cases s with
  | bigInteger | bigDecimal => cases hx
  | _ => exact congrArg _ hsame

/-- A type that has no null never looks like one. -/
theorem Ser.render_ne_null {s : Ser} (hx : s.showsBytes = true) (hnull : s.canBeNull = false)
    (v : s.Val) : s.render F proto v ≠ .null := by
  intro h
  match s, v with
  | .scalar s, v =>
    have hisNull := Scalar.isNull_of_render (F := F) (Scalar.isExact_of_showsBytes hx) (v := v) h
    cases s with
    | string | bigInteger | bigDecimal => cases hnull
    | _ => exact hisNull
  | .nullable _, _ | .pojo _ _, _ => cases hnull
  | .stringArray, _ => cases hx
  | .enum _ _, _ | .tuple _, _ | .list _, _ | .array _, _ | .map _ _, _ | .other _ _, _ => cases h

/-- Lists that look alike are stored alike, when their elements are. -/
theorem writeList_of_map {α : Type} {render : α → Json} {write : α → Bytes} {xs ys : JavaList α}
    (h : ∀ x ∈ xs.items, ∀ y ∈ ys.items, render x = render y → write x = write y)
    (heq : xs.items.map render = ys.items.map render) :
    writeList write xs = writeList write ys := by
  have hlength := congrArg List.length heq
  rw [List.length_map, List.length_map] at hlength
  have hmap {l m : List α} (hall : List.Forall₂ (fun x y => write x = write y) l m) :
      l.map write = m.map write := by
    induction hall with
    | nil => rfl
    | cons hhead _ ih => rw [List.map_cons, List.map_cons, hhead, ih]
  rw [writeList, writeList, hlength, List.flatMap_def, List.flatMap_def,
    hmap (forall₂_of_map_eq h heq)]

/-- Values that may be null and look alike are stored alike, when no other value looks like null. -/
theorem writeOption_of_render {s : Ser} (hx : s.showsBytes = true) (hnull : s.canBeNull = false)
    (hinj : ∀ v w : s.Val, s.WithinLimits v → s.WithinLimits w →
      s.render F proto v = s.render F proto w → s.encode v = s.encode w) {x y : Option s.Val}
    (hv : ∀ v ∈ x, s.WithinLimits v) (hw : ∀ w ∈ y, s.WithinLimits w)
    (h : x.elim .null (s.render F proto) = y.elim .null (s.render F proto)) (flag : Bool) :
    writeOption flag s.encode x = writeOption flag s.encode y := by
  match x, y with
  | none, none => rfl
  | none, some w => exact absurd h.symm (Ser.render_ne_null hx hnull w)
  | some v, none => exact absurd h (Ser.render_ne_null hx hnull v)
  | some v, some w => exact congrArg (writeBoolean (!flag) ++ ·) (hinj v w (hv v rfl) (hw w rfl) h)

mutual

/-- **Values of a type that shows its bytes look alike only when their bytes are the same.** -/
theorem Ser.encode_of_render (s : Ser) (hx : s.showsBytes = true) (hj : s.isJava = true)
    (v w : s.Val) (hv : s.WithinLimits v) (hw : s.WithinLimits w)
    (h : s.render F proto v = s.render F proto w) : s.encode v = s.encode w := by
  -- On the serializer: the parts look alike one by one.
  match s, v, w with
  | .scalar s, v, w => exact Scalar.encode_of_render hx h
  | .enum _ constants, (v : Fin constants.length), (w : Fin constants.length) =>
    simp only [Ser.isJava, Bool.and_eq_true, decide_eq_true_eq] at hj
    obtain rfl := hj.1.2.get_inj_iff.mp (Json.string.inj h)
    rfl
  | .tuple fields, v, w =>
    have hdecodable := tupleHasDecodable_of_withinLimits fields v hv
    have hfields : tupleShowsBytes fields = true := by
      rw [Ser.showsBytes, hdecodable] at hx
      simpa using hx
    exact tuple_encode_of_render fields hfields hj v w hv hw (Json.array.inj h)
  | .list elem, (v : JavaList elem.Val), (w : JavaList elem.Val) =>
    exact writeList_of_map (fun x hx' y hy' =>
      Ser.encode_of_render elem hx hj x y (hv.2 x hx') (hw.2 y hy')) (Json.array.inj h)
  | .array elem, (v : JavaList (Option elem.Val)), (w : JavaList (Option elem.Val)) =>
    rw [Ser.showsBytes, Bool.and_eq_true, Bool.not_eq_true'] at hx
    exact writeList_of_map (fun x hx' y hy' h' =>
      writeOption_of_render hx.1 hx.2 (Ser.encode_of_render elem hx.1 hj) (hv.2 x hx') (hw.2 y hy')
        h' false) (Json.array.inj h)
  | .nullable elem, (v : Option elem.Val), (w : Option elem.Val) =>
    rw [Ser.showsBytes, Bool.and_eq_true, Bool.not_eq_true'] at hx
    exact writeOption_of_render hx.1 hx.2 (Ser.encode_of_render elem hx.1 hj) hv hw h true
  | .map _ _, _, _ => exact hv.elim
  | .other _ _, _, _ => exact hv.elim

theorem tuple_encode_of_render (fields : List Ser) (hx : tupleShowsBytes fields = true)
    (hj : tupleIsJava fields = true) (vs ws : TupleVal fields) (hv : tupleWithinLimits fields vs)
    (hw : tupleWithinLimits fields ws)
    (h : renderTuple F proto fields vs = renderTuple F proto fields ws) :
    encodeTuple fields vs = encodeTuple fields ws := by
  match fields, vs, ws with
  | [], _, _ => rfl
  | s :: ss, vs, ws =>
    rw [tupleShowsBytes, Bool.and_eq_true] at hx
    rw [tupleIsJava, Bool.and_eq_true] at hj
    rw [renderTuple, renderTuple, List.cons.injEq] at h
    rw [encodeTuple, encodeTuple, Ser.encode_of_render s hx.1 hj.1 vs.1 ws.1 hv.1 hw.1 h.1,
      tuple_encode_of_render ss hx.2 hj.2 vs.2 ws.2 hv.2 hw.2 h.2]

end

/-! ### One text, one look -/

section Stored

variable {s : Ser} {t : Text}

/-- A stored key beyond them does not decode. -/
theorem decodeField_beyond (hs : s.isNamed proto t none = true) (hj : s.isJava = true) {v : s.Val}
    (hv : ¬ s.WithinLimits v) :
    ∃ failed, (decodeField F proto t none (JavaReader.new (s.encode v))).1 = .error failed := by
  rcases hread : decodeField F proto t none (JavaReader.new (s.encode v)) with ⟨failed | j, r⟩
  · exact ⟨failed, rfl⟩
  · refine absurd (withinLimits_of_decodeField (F := F) s t none hs hj v [] 0 j r ?_) hv
    rw [List.append_nil]
    exact hread

end Stored

/-! ### Any other type has two keys of one text -/

section Collisions

variable (F proto)

/-- Two values that the decoder reads, that are stored differently and look alike. -/
structure Ser.SameLook (s : Ser) (v w : s.Val) : Prop where
  left : s.WithinLimits v
  right : s.WithinLimits w
  differ : s.encode v ≠ s.encode w
  alike : s.render F proto v = s.render F proto w

variable {F proto}

/-- A list of one is stored as its length and that one. -/
theorem writeList_singleton {α : Type} (write : α → Bytes) (v : α) :
    writeList write (JavaList.singleton v) = writeLength 1 ++ write v := by
  show writeLength 1 ++ [v].flatMap write = _
  rw [List.flatMap_singleton]

theorem writeList_singleton_ne {α : Type} {write : α → Bytes} {v w : α} (h : write v ≠ write w) :
    writeList write (JavaList.singleton v) ≠ writeList write (JavaList.singleton w) := by
  rw [writeList_singleton, writeList_singleton]
  exact fun heq => h (List.append_cancel_left heq)

/-- A null is not stored as a value is. -/
theorem writeOption_none_ne {α : Type} (flag : Bool) (write : α → Bytes) (v : α) :
    writeOption flag write none ≠ writeOption flag write (some v) := by
  show writeBoolean flag ≠ writeBoolean (!flag) ++ write v
  intro h
  cases flag <;> exact absurd (List.cons.inj h).1 (by decide)

theorem writeOption_some_ne {α : Type} {flag : Bool} {write : α → Bytes} {v w : α}
    (h : write v ≠ write w) : writeOption flag write (some v) ≠ writeOption flag write (some w) :=
  fun heq => h (List.append_cancel_left heq)

theorem forall_mem_none {α : Type} {p : α → Prop} : ∀ x ∈ (none : Option α), p x :=
  fun x h => absurd h (Option.not_mem_none x)

variable (F proto) in
/-- A type that has a null has one that the decoder reads. -/
theorem Ser.exists_null {s : Ser} (h : s.canBeNull = true) :
    ∃ v : s.Val, s.WithinLimits v ∧ s.render F proto v = .null := by
  match s with
  | .scalar .string => exact ⟨(none : Option JavaString), trivial, rfl⟩
  | .scalar .bigInteger => exact ⟨(none : Option JavaBigInteger), forall_mem_none, rfl⟩
  | .scalar .bigDecimal => exact ⟨(none : Option JavaBigDecimal), forall_mem_none, rfl⟩
  | .nullable elem => exact ⟨(none : Option elem.Val), forall_mem_none, rfl⟩
  | .pojo _ fields => exact ⟨(none : Option (PojoVal fields)), forall_mem_none, rfl⟩

/-- A scalar type that does not show its bytes has two values that look alike. -/
theorem Scalar.exists_sameLook (hF : F.FiniteOnly) {s : Scalar} (hx : s.showsBytes = false) :
    ∃ v w : s.Val, (Ser.scalar s).SameLook F proto v w := by
  have hlimit : byteLength 1 ≤ maxBigIntegerBytes := by decide
  cases hexact : s.isExact with
  | false =>
    obtain ⟨v, w, hv, hw, hne, halike⟩ := Scalar.exists_alike hF hexact
    exact ⟨v, w, hv, hw, hne, halike⟩
  | true =>
    cases s with
    | bigInteger =>
      -- the shared constant is written by a length of its own
      refine ⟨some .one, some (.of 1 (by decide)), ?_, ?_, by decide, rfl⟩
      · rintro b ⟨⟩
        exact hlimit
      · rintro b ⟨⟩
        exact hlimit
    | bigDecimal =>
      refine ⟨some ⟨.one, 0⟩, some ⟨.of 1 (by decide), 0⟩, ?_, ?_, by decide, rfl⟩
      · rintro d ⟨⟩
        exact hlimit
      · rintro d ⟨⟩
        exact hlimit
    | _ => cases hexact.symm.trans hx

theorem withinLimits_singleton {elem : Ser} {v : elem.Val} (hv : elem.WithinLimits v) :
    (Ser.list elem).WithinLimits (JavaList.singleton v) :=
  ⟨Nat.le_of_ble_eq_true rfl, fun _ h => List.mem_singleton.mp h ▸ hv⟩

theorem withinLimits_singleton_option {elem : Ser} {x : Option elem.Val}
    (hx : ∀ v ∈ x, elem.WithinLimits v) :
    (Ser.array elem).WithinLimits (JavaList.singleton x) :=
  ⟨Nat.le_of_ble_eq_true rfl, fun _ h => List.mem_singleton.mp h ▸ hx⟩

theorem some_withinLimits {s : Ser} {v : s.Val} (hv : s.WithinLimits v) :
    ∀ x ∈ some v, s.WithinLimits x := by
  rintro x ⟨⟩
  exact hv

/-- Of a part that does not show its bytes, or that has a null, there are two options that look
    alike. -/
theorem exists_option_sameLook {s : Ser} (flag : Bool)
    (hlooks : s.showsBytes = false → ∃ v w : s.Val, s.SameLook F proto v w)
    (hx : (s.showsBytes && !s.canBeNull) = false) :
    ∃ x y : Option s.Val, (∀ v ∈ x, s.WithinLimits v) ∧ (∀ w ∈ y, s.WithinLimits w) ∧
      writeOption flag s.encode x ≠ writeOption flag s.encode y ∧
        x.elim .null (s.render F proto) = y.elim .null (s.render F proto) := by
  cases hs : s.showsBytes with
  | false =>
    obtain ⟨v, w, hlook⟩ := hlooks hs
    exact ⟨some v, some w, some_withinLimits hlook.left, some_withinLimits hlook.right,
      writeOption_some_ne hlook.differ, hlook.alike⟩
  | true =>
    rw [hs, Bool.true_and, Bool.not_eq_false'] at hx
    obtain ⟨v, hv, hrender⟩ := Ser.exists_null F proto hx
    exact ⟨none, some v, forall_mem_none, some_withinLimits hv, writeOption_none_ne flag s.encode v,
      hrender.symm⟩

mutual

/-- **A type that does not show its bytes has two values that look alike.** -/
theorem Ser.exists_sameLook (hF : F.FiniteOnly) (s : Ser) {t : Text}
    (hs : s.isNamed proto t none = true) (hx : s.showsBytes = false) :
    ∃ v w : s.Val, s.SameLook F proto v w := by
  -- On the serializer: two values that look alike inside one container.
  match s with
  | .scalar s => exact Scalar.exists_sameLook hF hx
  | .stringArray =>
    refine ⟨(JavaList.singleton (some (JavaString.unit 0xD800)) : JavaList (Option JavaString)),
      (JavaList.singleton (some (JavaString.unit 0xD801)) : JavaList (Option JavaString)),
      Nat.le_of_ble_eq_true rfl, Nat.le_of_ble_eq_true rfl, by decide, ?_⟩
    exact congrArg (fun j => Json.array [j]) renderString_lone
  | .tuple fields =>
    rw [Ser.showsBytes, Bool.or_eq_false_iff, Bool.not_eq_false'] at hx
    rw [Ser.isNamed, Bool.and_eq_true, Option.any_eq_true] at hs
    obtain ⟨-, inner, -, hnamed⟩ := hs
    obtain ⟨vs, ws, hv, hw, hne, halike⟩ := tuple_exists_sameLook hF fields hnamed hx.1 hx.2
    exact ⟨vs, ws, hv, hw, hne, congrArg Json.array halike⟩
  | .list elem =>
    rw [Ser.isNamed, Bool.and_eq_true] at hs
    obtain ⟨v, w, hlook⟩ := Ser.exists_sameLook hF elem hs.2 hx
    exact ⟨(JavaList.singleton v : JavaList elem.Val), (JavaList.singleton w : JavaList elem.Val),
      withinLimits_singleton hlook.left, withinLimits_singleton hlook.right,
      writeList_singleton_ne hlook.differ, congrArg (fun j => Json.array [j]) hlook.alike⟩
  | .array elem =>
    rw [Ser.isNamed, Bool.and_eq_true] at hs
    obtain ⟨x, y, hv, hw, hne, halike⟩ :=
      exists_option_sameLook false (Ser.exists_sameLook hF elem hs.2) hx
    exact ⟨(JavaList.singleton x : JavaList (Option elem.Val)),
      (JavaList.singleton y : JavaList (Option elem.Val)), withinLimits_singleton_option hv,
      withinLimits_singleton_option hw, writeList_singleton_ne hne,
      congrArg (fun j => Json.array [j]) halike⟩
  | .nullable elem =>
    rw [Ser.isNamed, Bool.and_eq_true] at hs
    obtain ⟨x, y, hv, hw, hne, halike⟩ :=
      exists_option_sameLook true (Ser.exists_sameLook hF elem hs.2) hx
    exact ⟨x, y, hv, hw, hne, halike⟩
  | .pojo _ _ =>
    rw [Ser.isNamed, Option.any_none, Bool.and_false] at hs
    cases hs
  | .enum _ _ | .map _ _ | .other _ _ => cases hx

theorem tuple_exists_sameLook (hF : F.FiniteOnly) (fields : List Ser) {ts : List Text}
    (hs : tupleIsNamed proto fields ts = true) (hx : tupleShowsBytes fields = false)
    (hd : tupleHasDecodable fields = true) :
    ∃ vs ws : TupleVal fields, tupleWithinLimits fields vs ∧ tupleWithinLimits fields ws ∧
      encodeTuple fields vs ≠ encodeTuple fields ws ∧
        renderTuple F proto fields vs = renderTuple F proto fields ws := by
  match fields, ts with
  | [], _ => cases hx
  | s :: ss, t :: ts =>
    rw [tupleIsNamed, Bool.and_eq_true] at hs
    rw [tupleHasDecodable, Bool.and_eq_true] at hd
    by_cases hfirst : s.showsBytes = false
    · obtain ⟨v, w, hlook⟩ := Ser.exists_sameLook hF s hs.1 hfirst
      obtain ⟨vs, hvs⟩ := tuple_exists_decodable ss hd.2
      exact ⟨(v, vs), (w, vs), ⟨hlook.left, hvs⟩, ⟨hlook.right, hvs⟩,
        fun h => hlook.differ (List.append_cancel_right h),
        congrArg (· :: renderTuple F proto ss vs) hlook.alike⟩
    · rw [Bool.not_eq_false] at hfirst
      rw [tupleShowsBytes, hfirst, Bool.true_and] at hx
      obtain ⟨v, hv⟩ := Ser.exists_decodable s hd.1
      obtain ⟨vs, ws, hvs, hws, hne, halike⟩ := tuple_exists_sameLook hF ss hs.2 hx hd.2
      exact ⟨(v, vs), (v, ws), ⟨hv, hvs⟩, ⟨hv, hws⟩, fun h => hne (List.append_cancel_left h),
        congrArg (s.render F proto v :: ·) halike⟩

end

end Collisions

end Text

end FlinkExplorer
