import FlinkExplorer.Flink.Serializer

namespace FlinkExplorer

open Lib

/-!
# When two values of a serializer are the same

`Ser.Same` is equality as Java sees it: big numbers by their value, whichever object holds them,
and null as null, whether it is written by a flag or by the serializer of the value itself
(`Ser.IsNull`).
-/

/-- Whether a value is the null of its type. -/
def Ser.IsNull : (s : Ser) → s.Val → Prop
  | .scalar .string, (v : Option JavaString) => v = none
  | .scalar .bigInteger, (v : Option JavaBigInteger) => v = none
  | .scalar .bigDecimal, (v : Option JavaBigDecimal) => v = none
  | .nullable elem, (x : Option elem.Val) => ∀ v ∈ x, elem.IsNull v
  | .pojo _ _, (x : Option _) => x = none
  | _, _ => False

/-- Equality of scalars: big numbers by their value. -/
def Scalar.Same : (s : Scalar) → s.Val → s.Val → Prop
  | .bigInteger, (v : Option JavaBigInteger), (w : Option JavaBigInteger) =>
    v.map (·.value) = w.map (·.value)
  | .bigDecimal, (v : Option JavaBigDecimal), (w : Option JavaBigDecimal) =>
    v.map (fun d => (d.unscaled.value, d.scale)) = w.map fun d => (d.unscaled.value, d.scale)
  | _, v, w => v = w

/-- Equality of values that may be null, by a flag or by themselves. -/
def OptionSame {α : Type} (isNull : α → Prop) (same : α → α → Prop) : Option α → Option α → Prop
  | none, none => True
  | none, some w => isNull w
  | some v, none => isNull v
  | some v, some w => same v w

mutual

/-- Equality of values. -/
def Ser.Same : (s : Ser) → s.Val → s.Val → Prop
  | .scalar s, v, w => s.Same v w
  | .tuple fields, v, w => TupleSame fields v w
  | .list elem, (v : JavaList elem.Val), (w : JavaList elem.Val) =>
    List.Forall₂ elem.Same v.items w.items
  | .array elem, (v : JavaList (Option elem.Val)), (w : JavaList (Option elem.Val)) =>
    List.Forall₂ (OptionSame elem.IsNull elem.Same) v.items w.items
  | .nullable elem, (v : Option elem.Val), (w : Option elem.Val) =>
    OptionSame elem.IsNull elem.Same v w
  | .pojo _ fields, (v : Option (PojoVal fields)), (w : Option (PojoVal fields)) =>
    OptionSame (fun _ => False) (PojoSame fields) v w
  | .enum _ _, v, w => v = w
  | .stringArray, v, w => v = w
  | .map _ _, v, w => v = w
  | .other _ _, v, w => v = w

/-- Equality of the fields of a tuple. -/
def TupleSame : (fields : List Ser) → TupleVal fields → TupleVal fields → Prop
  | [], _, _ => True
  | s :: ss, v, w => s.Same v.1 w.1 ∧ TupleSame ss v.2 w.2

/-- Equality of the fields of a POJO. -/
def PojoSame : (fields : List SerField) → PojoVal fields → PojoVal fields → Prop
  | [], _, _ => True
  | f :: fs, v, w => f.Same v.1 w.1 ∧ PojoSame fs v.2 w.2

/-- Equality of a field of a POJO. -/
def SerField.Same : (f : SerField) → Option f.Val → Option f.Val → Prop
  | .mk _ s, v, w => OptionSame s.IsNull s.Same v w

end

theorem Scalar.Same.refl (s : Scalar) (v : s.Val) : s.Same v v := by
  cases s <;> rfl

theorem OptionSame.refl {α : Type} {isNull : α → Prop} {same : α → α → Prop}
    (h : ∀ v, same v v) (x : Option α) : OptionSame isNull same x x := by
  cases x with
  | none => trivial
  | some v => exact h v

theorem forall₂_refl {α : Type} {R : α → α → Prop} (h : ∀ v, R v v) (xs : List α) :
    List.Forall₂ R xs xs := by
  induction xs with
  | nil => exact .nil
  | cons x xs ih => exact .cons (h x) ih

mutual

theorem Ser.Same.refl (s : Ser) (v : s.Val) : s.Same v v := by
  match s, v with
  | .scalar s, v => exact Scalar.Same.refl s v
  | .tuple fields, v => exact TupleSame.refl fields v
  | .list elem, (v : JavaList elem.Val) => exact forall₂_refl (Ser.Same.refl elem) v.items
  | .array elem, (v : JavaList (Option elem.Val)) =>
    exact forall₂_refl (OptionSame.refl (Ser.Same.refl elem)) v.items
  | .nullable elem, (v : Option elem.Val) => exact OptionSame.refl (Ser.Same.refl elem) v
  | .pojo _ fields, (v : Option (PojoVal fields)) => exact OptionSame.refl (PojoSame.refl fields) v
  | .enum _ _, _ | .stringArray, _ | .map _ _, _ | .other _ _, _ => exact rfl

theorem TupleSame.refl (fields : List Ser) (vs : TupleVal fields) : TupleSame fields vs vs := by
  match fields, vs with
  | [], _ => trivial
  | s :: ss, vs => exact ⟨Ser.Same.refl s vs.1, TupleSame.refl ss vs.2⟩

theorem PojoSame.refl (fields : List SerField) (vs : PojoVal fields) : PojoSame fields vs vs := by
  match fields, vs with
  | [], _ => trivial
  | .mk _ s :: fs, vs => exact ⟨OptionSame.refl (Ser.Same.refl s) vs.1, PojoSame.refl fs vs.2⟩

end

end FlinkExplorer
