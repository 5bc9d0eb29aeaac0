import FlinkExplorer.Parser.Value
import Mathlib.Tactic.Common

namespace FlinkExplorer

open Lib Lib.Read

/-!
# The recursion of `decode_field`

Two facts about the decoder as a whole, on which every later result rests:

* `decodeField_eq` — `decodeField` satisfies the equation the source defines it by.  Each
  helper consults the decoder only on lighter types (`decodeFieldWith_congr`), so cutting the
  recursion at `decodeWeight` never shows;
* `stable_decodeField` — a successful decode depends on the bytes it consumed and on nothing
  after them.
-/

/-! ### Parts are lighter -/

/-- What stands between the brackets of a type name. -/
theorem typeArgs_eq_some {name t inner : Text} :
    typeArgs name t = some inner ↔ t = name ++ inner ++ ['>'] := by
  unfold typeArgs
  constructor
  · intro h
    obtain ⟨s, hs, hi⟩ := Option.bind_eq_some_iff.mp h
    rw [stripPrefix_eq_some] at hs
    rw [stripSuffix_eq_some] at hi
    rw [hs, hi, List.append_assoc]
  · rintro rfl
    rw [List.append_assoc, stripPrefix_append]
    exact stripSuffix_append inner ['>']

/-- It is shorter than the name, by which the decoder ends. -/
theorem typeArgs_length_lt {name t inner : Text} (h : typeArgs name t = some inner) :
    inner.length < t.length := by
  have := congrArg List.length (typeArgs_eq_some.mp h)
  simp only [List.length_append, List.length_singleton] at this
  omega

/-- No part of a list of types is longer than what was split. -/
theorem length_splitTopLevelGo {s part : Text} {depth : Int} {cur : Text}
    (h : part ∈ splitTopLevelGo depth cur s) : part.length ≤ cur.length + s.length := by
  induction s generalizing depth cur with
  | nil =>
    rw [splitTopLevelGo] at h
    split at h
    · cases h
    · rw [List.mem_singleton.mp h, List.length_reverse]
      omega
  | cons c s ih =>
    rw [splitTopLevelGo] at h
    rw [List.length_cons]
    split at h
    · have := ih h
      rw [List.length_cons] at this
      omega
    · split at h
      · have := ih h
        rw [List.length_cons] at this
        omega
      · split at h
        · rcases List.mem_cons.mp h with rfl | h
          · rw [List.length_reverse]
            omega
          · have := ih h
            rw [List.length_nil] at this
            omega
        · have := ih h
          rw [List.length_cons] at this
          omega

/-- A part of a list of types is no longer than the list. -/
theorem length_of_mem_splitTopLevel {s part : Text} (h : part ∈ splitTopLevel s) :
    part.length ≤ s.length := by
  have := length_splitTopLevelGo h
  rwa [List.length_nil, Nat.zero_add] at this

/-- Trimming makes no name longer. -/
theorem length_trim_le (t : Text) : (trim t).length ≤ t.length := by
  have h₁ := (List.dropWhile_sublist isWhitespace (l := t)).length_le
  have h₂ := (List.dropWhile_sublist isWhitespace
    (l := (t.dropWhile isWhitespace).reverse)).length_le
  rw [List.length_reverse] at h₂
  unfold trim
  rw [List.length_reverse]
  omega

/-- A name is as long as its prefix at least. -/
theorem isPrefixOf_length {p t : Text} (h : p.isPrefixOf t = true) : p.length ≤ t.length :=
  (List.isPrefixOf_iff_prefix.mp h).length_le

/-- The element type of a list or an array is shorter than its type. -/
theorem elementType_length_lt {t : Text}
    (h : "List<".toList.isPrefixOf t = true ∨ "Array<".toList.isPrefixOf t = true) :
    (elementType t).length < t.length := by
  have hlong : 5 ≤ t.length := by
    rcases h with h | h
    · exact isPrefixOf_length h
    · have : 6 ≤ t.length := isPrefixOf_length h
      omega
  unfold elementType
  rcases ho : ((stripPrefix "List<".toList t).orElse fun _ => stripPrefix "Array<".toList t).bind
    (stripSuffix ['>']) with _ | inner
  · rw [Option.getD_none, List.length_singleton]
    omega
  · rw [Option.getD_some]
    obtain ⟨s, hs, hi⟩ := Option.bind_eq_some_iff.mp ho
    have hle : s.length ≤ t.length := by
      rcases hl : stripPrefix "List<".toList t with _ | u
      · rw [hl] at hs
        have := congrArg List.length (stripPrefix_eq_some.mp hs)
        rw [List.length_append] at this
        omega
      · rw [hl] at hs
        have hu : u = s := Option.some.inj hs
        have := congrArg List.length (stripPrefix_eq_some.mp hl)
        rw [List.length_append, hu] at this
        omega
    have := congrArg List.length (stripSuffix_eq_some.mp hi)
    rw [List.length_append, List.length_singleton] at this
    omega

/-- So is the type under a `Nullable`. -/
theorem nullable_inner_length_lt {t : Text} (h : "Nullable<".toList.isPrefixOf t = true) :
    ((typeArgs "Nullable<".toList t).getD ['?']).length < t.length := by
  rcases hi : typeArgs "Nullable<".toList t with _ | inner
  · have : 9 ≤ t.length := isPrefixOf_length h
    rw [Option.getD_none, List.length_singleton]
    omega
  · exact typeArgs_length_lt hi

/-! ### The decoder of the parts is consulted on the parts -/

section Congr

variable {F : FloatText} {proto : Option ProtoContext} {d₁ d₂ : FieldDecoder}

/-- A tuple asks the decoder for its fields only. -/
theorem decodeTupleFields_congr {ts : List Text} (h : ∀ t ∈ ts, d₁ (trim t) none = d₂ (trim t) none)
    (i : Nat) (items : List Json) :
    decodeTupleFields d₁ i items ts = decodeTupleFields d₂ i items ts := by
  induction ts generalizing i items with
  | nil => rfl
  | cons t ts ih =>
    rw [decodeTupleFields, decodeTupleFields, h t List.mem_cons_self]
    congr 1
    funext v
    exact ih (fun u hu => h u (List.mem_cons_of_mem t hu)) _ _

/-- The fields of a POJO ask it for their types and layouts only. -/
theorem decodePojoFields_congr {fs : List PojoField}
    (h : ∀ f ∈ fs, d₁ f.typeName f.nestedPojo = d₂ f.typeName f.nestedPojo) (st : PojoState) :
    decodePojoFields proto d₁ st fs = decodePojoFields proto d₂ st fs := by
  induction fs generalizing st with
  | nil => rfl
  | cons f fs ih =>
    have hf : decodePojoField proto d₁ f st = decodePojoField proto d₂ f st := by
      rw [decodePojoField, decodePojoField, h f List.mem_cons_self]
    rw [decodePojoFields, decodePojoFields, hf]
    congr 1
    funext x
    exact ih (fun g hg => h g (List.mem_cons_of_mem f hg)) _

/-- So does a POJO behind its flags. -/
theorem decodePojoWith_congr {info : PojoInfo}
    (h : ∀ f ∈ info.fields, d₁ f.typeName f.nestedPojo = d₂ f.typeName f.nestedPojo) :
    decodePojoWith proto d₁ info = decodePojoWith proto d₂ info := by
  have hbody (flags : UInt8) :
      decodePojoBody proto d₁ flags info = decodePojoBody proto d₂ flags info := by
    rw [decodePojoBody, decodePojoBody, decodePojoFields_congr h]
  simp only [decodePojoWith, hbody]

/-- A type name asks for smaller types only. -/
theorem decodeByName_congr {t : Text} {nested : Option PojoInfo}
    (h : ∀ t' nested', decodeWeight t' nested' < decodeWeight t nested →
      d₁ t' nested' = d₂ t' nested') :
    decodeByName F d₁ t nested = decodeByName F d₂ t nested := by
  unfold decodeByName
  split
  · rfl
  split
  · -- A tuple: each field's type is a part of the argument list.
    unfold decodeTuple
    split
    · rfl
    · rename_i inner hinner
      refine decodeTupleFields_congr (fun u hu => h _ _ ?_) 0 []
      have h₁ := typeArgs_length_lt hinner
      have h₂ := length_of_mem_splitTopLevel hu
      have h₃ := length_trim_le u
      simp only [decodeWeight, nestedWeight_none]
      omega
  split
  · rename_i hl
    have hlt := elementType_length_lt (Bool.or_eq_true_iff.mp hl)
    have helem : d₁ (elementType t) nested = d₂ (elementType t) nested :=
      h _ _ (by simp only [decodeWeight]; omega)
    simp only [decodeListField, decodeArrayElement, helem]
  split
  · rename_i hn
    have hlt := nullable_inner_length_lt hn
    have hinner := h ((typeArgs "Nullable<".toList t).getD ['?']) nested
      (by simp only [decodeWeight]; omega)
    simp only [decodeNullable, hinner]
  · rfl

/-- **One step of the decoder asks for smaller fields only**, so the fuel of a larger field is
    enough for it. -/
theorem decodeFieldWith_congr {t : Text} {nested : Option PojoInfo}
    (h : ∀ t' nested', decodeWeight t' nested' < decodeWeight t nested →
      d₁ t' nested' = d₂ t' nested') :
    decodeFieldWith F proto d₁ t nested = decodeFieldWith F proto d₂ t nested := by
  unfold decodeFieldWith
  split
  · rename_i info
    split
    · exact decodeByName_congr h
    · refine decodePojoWith_congr fun f hf => h _ _ ?_
      have := PojoInfo.weight_of_mem hf
      simp only [decodeWeight, nestedWeight_some]
      omega
  · exact decodeByName_congr h

end Congr

/-! ### The source's equation -/

section Equation

variable (F : FloatText) (proto : Option ProtoContext)

/-- Past `decodeWeight`, more depth changes nothing. -/
theorem decodeFieldFuel_eq {n m : Nat} {t : Text} {nested : Option PojoInfo}
    (hn : decodeWeight t nested < n) (hm : decodeWeight t nested < m) :
    decodeFieldFuel F proto n t nested = decodeFieldFuel F proto m t nested := by
  induction n generalizing m t nested with
  | zero => omega
  | succ n ih =>
    obtain ⟨k, rfl⟩ : ∃ k, m = k + 1 := ⟨m - 1, by omega⟩
    exact decodeFieldWith_congr fun t' nested' hlt => ih (by omega) (by omega)

/-- **The equation of `decode_field`.** -/
theorem decodeField_eq (t : Text) (nested : Option PojoInfo) :
    decodeField F proto t nested = decodeFieldWith F proto (decodeField F proto) t nested :=
  decodeFieldWith_congr fun _ _ hlt => decodeFieldFuel_eq F proto hlt (Nat.lt_succ_self _)

/-- A field without a layout is decoded by the name of its type. -/
theorem decodeField_none (t : Text) :
    decodeField F proto t none = decodeByName F (decodeField F proto) t none :=
  decodeField_eq F proto t none

/-- A field with a layout is a POJO, unless its type is a container. -/
theorem decodeField_pojo {t : Text} (h : isContainer t = false) (info : PojoInfo) :
    decodeField F proto t (some info) = decodePojo F proto info := by
  rw [decodeField_eq, decodeFieldWith, h]
  rfl

/-- The layout of a container is that of its elements. -/
theorem decodeField_container {t : Text} (h : isContainer t = true) (nested : Option PojoInfo) :
    decodeField F proto t nested = decodeByName F (decodeField F proto) t nested := by
  rw [decodeField_eq]
  cases nested with
  | none => rfl
  | some info => simp [decodeFieldWith, h]

end Equation

/-! ### Stability -/

section Stability

variable {F : FloatText} {proto : Option ProtoContext}

/-- Dropping the error changes no read. -/
theorem stable_ok {β : Type} {p : ReadBytes ParseError β} (hp : Stable p) : Stable (ok p) :=
  hp.mapError _

/-- A read that is then only rearranged. -/
theorem stable_ok_pure {β γ : Type} {p : ReadBytes ParseError β} (hp : Stable p) (f : β → γ) :
    Stable (do let v ← ok p; pure (f v) : ReadBytes Unit γ) :=
  (stable_ok hp).bind fun _ => Stable.pure _

/-- A choice that does not look at the bytes. -/
theorem stable_ite {α ε β : Type} {c : Prop} [Decidable c] {p q : Read α ε β} (hp : Stable p)
    (hq : Stable q) : Stable (if c then p else q) := by
  split
  · exact hp
  · exact hq

/-- A big integer is as long as it says. -/
theorem stable_readBigInteger : Stable readBigInteger := by
  refine (stable_ok stable_readInt).bind fun len => ?_
  refine stable_ite (Stable.pure _) (stable_ite (Stable.pure _) (stable_ite (Stable.pure _)
    (stable_ite (Stable.pure _) (stable_ite ?_ (Stable.throw _)))))
  exact stable_ok_pure (stable_readBytes _) _

/-- So is a big decimal. -/
theorem stable_readBigDecimal : Stable readBigDecimal := by
  refine stable_readBigInteger.bind fun unscaled => ?_
  cases unscaled with
  | none => exact Stable.pure _
  | some u => exact stable_ok_pure stable_readInt _

/-- Bytes behind their length. -/
theorem stable_readLenBytes : Stable readLenBytes :=
  (stable_ok stable_readInt).bind fun _ =>
    stable_ite (stable_ok (stable_readBytes _)) (Stable.throw _)

/-- An array of primitives behind its length. -/
theorem stable_readPrimArray {readOne : ReadBytes Unit Json} (h : Stable readOne) :
    Stable (readPrimArray readOne) :=
  (stable_ok stable_readInt).bind fun _ =>
    stable_ite ((h.many _).bind fun _ => Stable.pure _) (Stable.throw _)

/-- **A scalar is read from its own bytes**, whatever it is. -/
theorem stable_readScalar (s : Scalar) : Stable (readScalar F s) := by
  have hint := stable_ok stable_readInt
  have hlong := stable_ok stable_readLong
  have hbyte := stable_ok stable_readByte
  cases s with
  | int => exact hint.bind fun _ => Stable.pure _
  | long => exact hlong.bind fun _ => Stable.pure _
  | boolean => exact stable_ok_pure stable_readBoolean _
  | double => exact hlong.bind fun _ => Stable.pure _
  | float => exact hint.bind fun _ => Stable.pure _
  | short => exact stable_ok_pure stable_readShort _
  | byte => exact hbyte.bind fun _ => Stable.pure _
  | char => exact stable_ok_pure stable_readChar _
  | bigInteger => exact stable_readBigInteger.bind fun _ => Stable.pure _
  | bigDecimal => exact stable_readBigDecimal.bind fun _ => Stable.pure _
  | string => exact stable_ok_pure stable_readNullableStringValue _
  | byteArray => exact stable_readLenBytes.bind fun _ => Stable.pure _
  | localDateTime =>
    exact hint.bind fun _ => hbyte.bind fun _ => hbyte.bind fun _ => hbyte.bind fun _ =>
      hbyte.bind fun _ => hbyte.bind fun _ => hint.bind fun _ => Stable.pure _
  | localDate =>
    exact hint.bind fun _ => hbyte.bind fun _ => hbyte.bind fun _ => Stable.pure _
  | localTime =>
    exact hbyte.bind fun _ => hbyte.bind fun _ => hbyte.bind fun _ => hint.bind fun _ =>
      Stable.pure _
  | instant => exact hlong.bind fun _ => hint.bind fun _ => Stable.pure _
  | date => exact hlong.bind fun _ => Stable.pure _
  | timestamp => exact hlong.bind fun _ => hint.bind fun _ => Stable.pure _
  | enumOrdinal => exact hint.bind fun _ => Stable.pure _
  | intArray => exact stable_readPrimArray (stable_ok_pure stable_readInt _)
  | longArray => exact stable_readPrimArray (stable_ok_pure stable_readLong _)
  | doubleArray => exact stable_readPrimArray (stable_ok_pure stable_readLong _)
  | floatArray => exact stable_readPrimArray (stable_ok_pure stable_readInt _)
  | shortArray => exact stable_readPrimArray (stable_ok_pure stable_readShort _)
  | booleanArray => exact stable_readPrimArray (stable_ok_pure stable_readBoolean _)
  | charArray => exact stable_readPrimArray (stable_ok_pure stable_readChar _)

/-- A type name of a scalar, or none. -/
theorem stable_decodeScalar (t : Text) : Stable (decodeScalar F t) := by
  unfold decodeScalar
  split
  · exact stable_readScalar _
  · exact stable_ite (stable_ok_pure stable_readInt _) (Stable.throw _)

/-- Elements one after the other. -/
theorem stable_decodeElements {readOne : ReadBytes Json Json} (h : Stable readOne)
    (items : List Json) (left : Nat) : Stable (decodeElements readOne items left) := by
  induction left generalizing items with
  | zero => exact Stable.pure _
  | succ left ih => exact (h.mapError _).bind fun _ => ih _

/-- The size of a list, within its limit. -/
theorem stable_readSize (limit : Int) (t : Text) : Stable (readSize limit t) :=
  (stable_readInt.mapError _).bind fun _ => stable_ite (Stable.pure _) (Stable.throw _)

/-- Strings with a null flag each. -/
theorem stable_decodeStringArray : Stable decodeStringArray :=
  (stable_readSize _ _).bind fun _ => stable_decodeElements
    ((stable_readNullableStringValue.mapError _).bind fun _ => Stable.pure _) _ _

variable {dec : FieldDecoder} (hdec : ∀ t nested, Stable (dec t nested))

include hdec

/-- The fields of a tuple. -/
theorem stable_decodeTupleFields (ts : List Text) (i : Nat) (items : List Json) :
    Stable (decodeTupleFields dec i items ts) := by
  induction ts generalizing i items with
  | nil => exact Stable.pure _
  | cons t ts ih => exact ((hdec _ _).mapError _).bind fun _ => ih _ _

/-- A field of a POJO behind its null flag. -/
theorem stable_decodePojoField (f : PojoField) (st : PojoState) :
    Stable (decodePojoField proto dec f st) := by
  refine (stable_readBoolean.mapError _).bind fun isNull => stable_ite (Stable.pure _)
    (stable_ite ?_ ?_)
  · exact (stable_readLenBytes.mapError _).bind fun _ => Stable.pure _
  · exact (hdec _ _).bind fun _ => Stable.pure _

/-- The fields of a POJO, one after the other. -/
theorem stable_decodePojoFields (fs : List PojoField) (st : PojoState) :
    Stable (decodePojoFields proto dec st fs) := by
  induction fs generalizing st with
  | nil => exact Stable.pure _
  | cons f fs ih => exact ((stable_decodePojoField hdec f st).mapError _).bind fun _ => ih _

/-- A POJO after its flags: null, a subclass, or its fields. -/
theorem stable_decodePojoBody (flags : UInt8) (info : PojoInfo) :
    Stable (decodePojoBody proto dec flags info) := by
  -- The subclass branches end in an error, whatever they read before it.
  have hthrow {β : Type} (p : ReadBytes Json β) (f : β → Json) :
      Stable (p >>= fun v => throw (f v) : ReadBytes Json Json) := by
    intro r v r' h
    obtain ⟨w, s, -, hw⟩ := bind_eq_ok h
    cases hw
  unfold decodePojoBody
  refine stable_ite (Stable.pure _) (stable_ite ?_ (stable_ite ?_ ?_))
  · exact hthrow _ _
  · exact hthrow _ _
  · exact stable_decodePojoFields hdec _ _

/-- A POJO, whose first byte says which of these it is. -/
theorem stable_decodePojoWith (info : PojoInfo) : Stable (decodePojoWith proto dec info) :=
  (stable_readByte.mapError _).bind fun _ => stable_ite
    ((stable_readByte.mapError _).bind fun _ => stable_decodePojoBody hdec _ _)
    (stable_decodePojoBody hdec _ _)

/-- A field by the name of its type. -/
theorem stable_decodeByName (t : Text) (nested : Option PojoInfo) :
    Stable (decodeByName F dec t nested) := by
  unfold decodeByName
  refine stable_ite stable_decodeStringArray (stable_ite ?_ (stable_ite ?_ (stable_ite ?_ ?_)))
  · unfold decodeTuple
    split
    · exact Stable.throw _
    · exact stable_decodeTupleFields hdec _ _ _
  · refine (stable_readSize _ _).bind fun _ => stable_decodeElements (stable_ite ?_ (hdec _ _)) _ _
    exact (stable_readBoolean.mapError _).bind fun _ => stable_ite (hdec _ _) (Stable.pure _)
  · exact (stable_readBoolean.mapError _).bind fun _ => stable_ite (Stable.pure _) (hdec _ _)
  · exact (stable_decodeScalar t).mapError _

/-- **One step of the decoder is stable where the decoder of the parts is.** -/
theorem stable_decodeFieldWith (t : Text) (nested : Option PojoInfo) :
    Stable (decodeFieldWith F proto dec t nested) := by
  unfold decodeFieldWith
  split
  · exact stable_ite (stable_decodeByName hdec _ _) (stable_decodePojoWith hdec _)
  · exact stable_decodeByName hdec _ _

omit hdec

/-- **A successful decode depends only on the bytes it consumed.** -/
theorem stable_decodeField (t : Text) (nested : Option PojoInfo) :
    Stable (decodeField F proto t nested) := by
  have hfuel (n : Nat) : ∀ t nested, Stable (decodeFieldFuel F proto n t nested) := by
    induction n with
    | zero => exact fun t _ => Stable.throw _
    | succ n ih => exact fun t nested => stable_decodeFieldWith ih t nested
  exact hfuel _ t nested

end Stability

end FlinkExplorer
