import FlinkExplorer.Flink.TypeName

namespace FlinkExplorer

open Lib Lib.Read

/-!
# What a type name and a layout stand for

The decoder is driven by a type name and a POJO layout; Flink's bytes are driven by a serializer.
`Ser.isNamed` says that a serializer is the one the decoder takes a name and a layout for:

* `exists_isNamed` — every name and layout stands for a serializer, at worst one whose values
  are not decoded;
* `Ser.isNamed_typeName` — a serializer of the grammar is named by its own name and layout;
* `decodeField_of_…` — how the values of each serializer are decoded, by the decoders of its
  parts.
-/

section Named

/-- The serializer of byte arrays. -/
def Ser.isByteArray : Ser → Bool
  | .scalar .byteArray => true
  | _ => false

theorem Ser.eq_of_isByteArray {s : Ser} (h : s.isByteArray = true) : s = .scalar .byteArray := by
  unfold Ser.isByteArray at h
  split at h
  · rfl
  · cases h

variable (proto : Option ProtoContext)

mutual

/-- Whether the decoder takes a type name and a layout for a serializer.  An enum whose constants
    are not listed is taken for the `int` it is written as. -/
def Ser.isNamed : Ser → Text → Option PojoInfo → Bool
  | .scalar s, t, nested =>
    nested.isNone && (t == s.name
      || s == .int && "Enum<".toList.isPrefixOf t && enumConstants t == none)
  | .enum _ constants, t, nested =>
    nested.isNone && "Enum<".toList.isPrefixOf t && (enumConstants t == some constants
      || constants.isEmpty && enumConstants t == none)
  | .stringArray, t, nested => nested.isNone && t == "String[]".toList
  | .tuple fields, t, nested =>
    nested.isNone && (typeArgs "Tuple<".toList t).any fun inner =>
      tupleIsNamed fields (splitTopLevel inner)
  | .list elem, t, nested => "List<".toList.isPrefixOf t && elem.isNamed (elementType t) nested
  | .array elem, t, nested => "Array<".toList.isPrefixOf t && elem.isNamed (elementType t) nested
  | .nullable elem, t, nested =>
    "Nullable<".toList.isPrefixOf t
      && elem.isNamed ((typeArgs "Nullable<".toList t).getD ['?']) nested
  | .map _ _, t, _ => "Map<".toList.isPrefixOf t
  | .pojo _ fields, t, nested =>
    !isContainer t && nested.any fun info => fieldsAreNamed fields info.fields
  | .other _ _, t, nested => nested.isNone && isUnknownType t

/-- The same for the fields of a tuple, which are decoded without a layout. -/
def tupleIsNamed : List Ser → List Text → Bool
  | [], [] => true
  | s :: ss, t :: ts => s.isNamed (trim t) none && tupleIsNamed ss ts
  | _, _ => false

/-- The same for the fields of a POJO. -/
def fieldsAreNamed : List SerField → List PojoField → Bool
  | [], [] => true
  | f :: fs, g :: gs => f.isNamed g && fieldsAreNamed fs gs
  | _, _ => false

/-- The same for a field of a POJO: one that a protobuf pattern captures is a byte array. -/
def SerField.isNamed : SerField → PojoField → Bool
  | .mk name s, f =>
    name == f.name &&
      if f.typeName = "byte[]".toList ∧ anyPattern proto (·.bytesField = f.name) then
        s.isByteArray
      else s.isNamed f.typeName f.nestedPojo

end

theorem Ser.isNamed_scalar (s : Scalar) : (Ser.scalar s).isNamed proto s.name none = true := by
  unfold Ser.isNamed
  simp only [beq_self_eq_true, Bool.true_or, Option.isNone_none, Bool.and_self]

/-! ### Every name stands for a serializer -/

theorem exists_fieldsAreNamed {fs : List PojoField}
    (h : ∀ f ∈ fs, ∃ s : Ser, s.isNamed proto f.typeName f.nestedPojo = true) :
    ∃ ss, fieldsAreNamed proto ss fs = true := by
  induction fs with
  | nil => exact ⟨[], rfl⟩
  | cons f fs ih =>
    obtain ⟨ss, hss⟩ := ih fun g hg => h g (List.mem_cons_of_mem f hg)
    obtain ⟨s, hs⟩ := h f List.mem_cons_self
    by_cases hbytes : f.typeName = "byte[]".toList ∧ anyPattern proto (·.bytesField = f.name)
    · refine ⟨.mk f.name (.scalar .byteArray) :: ss, ?_⟩
      rw [fieldsAreNamed, SerField.isNamed, if_pos hbytes, hss, beq_self_eq_true]
      rfl
    · refine ⟨.mk f.name s :: ss, ?_⟩
      rw [fieldsAreNamed, SerField.isNamed, if_neg hbytes, hs, hss, beq_self_eq_true]
      rfl

theorem exists_tupleIsNamed {ts : List Text}
    (h : ∀ t ∈ ts, ∃ s : Ser, s.isNamed proto (trim t) none = true) :
    ∃ ss, tupleIsNamed proto ss ts = true := by
  induction ts with
  | nil => exact ⟨[], rfl⟩
  | cons t ts ih =>
    obtain ⟨ss, hss⟩ := ih fun u hu => h u (List.mem_cons_of_mem t hu)
    obtain ⟨s, hs⟩ := h t List.mem_cons_self
    exact ⟨s :: ss, by rw [tupleIsNamed, hs, hss]; rfl⟩

/-- A container without a layout, or with one for its elements. -/
theorem exists_isNamed_container {t : Text} {nested : Option PojoInfo}
    (ih : ∀ t' nested', decodeWeight t' nested' < decodeWeight t nested →
      ∃ s : Ser, s.isNamed proto t' nested' = true)
    (h : "List<".toList.isPrefixOf t = true ∨ "Array<".toList.isPrefixOf t = true ∨
      "Nullable<".toList.isPrefixOf t = true) : ∃ s : Ser, s.isNamed proto t nested = true := by
  have helem (hlist : "List<".toList.isPrefixOf t = true ∨ "Array<".toList.isPrefixOf t = true) :
      ∃ s : Ser, s.isNamed proto (elementType t) nested = true := by
    have := elementType_length_lt hlist
    exact ih _ _ (by simp only [decodeWeight]; omega)
  rcases h with h | h | h
  · obtain ⟨s, hs⟩ := helem (.inl h)
    exact ⟨.list s, by rw [Ser.isNamed, h, hs]; rfl⟩
  · obtain ⟨s, hs⟩ := helem (.inr h)
    exact ⟨.array s, by rw [Ser.isNamed, h, hs]; rfl⟩
  · have hlt := nullable_inner_length_lt h
    obtain ⟨s, hs⟩ := ih ((typeArgs "Nullable<".toList t).getD ['?']) nested
      (by simp only [decodeWeight]; omega)
    exact ⟨.nullable s, by rw [Ser.isNamed, h, hs]; rfl⟩

/-- **Every name and layout stands for a serializer.** -/
theorem exists_isNamed (t : Text) (nested : Option PojoInfo) :
    ∃ s : Ser, s.isNamed proto t nested = true := by
  induction hn : decodeWeight t nested using Nat.strongRecOn generalizing t nested with
  | ind n ih =>
    subst hn
    have ih (t' : Text) (nested' : Option PojoInfo)
        (hlt : decodeWeight t' nested' < decodeWeight t nested) := ih _ hlt t' nested' rfl
    cases nested with
    | none =>
      rcases type_cases t with ⟨s, rfl⟩ | rfl | ⟨inner, htuple⟩ | h | h | h | h | h
      · exact ⟨.scalar s, Ser.isNamed_scalar proto s⟩
      · exact ⟨.stringArray, by simp [Ser.isNamed]⟩
      · obtain ⟨ss, hss⟩ := @exists_tupleIsNamed proto (splitTopLevel inner) fun part hpart => by
          have h₁ := typeArgs_length_lt htuple
          have h₂ := length_of_mem_splitTopLevel hpart
          have h₃ := length_trim_le part
          exact ih _ _ (by simp only [decodeWeight]; omega)
        exact ⟨.tuple ss, by rw [Ser.isNamed, htuple, Option.any_some, hss]; rfl⟩
      · exact exists_isNamed_container proto ih (.inl h)
      · exact exists_isNamed_container proto ih (.inr (.inl h))
      · exact exists_isNamed_container proto ih (.inr (.inr h))
      · rcases hc : enumConstants t with _ | constants
        · exact ⟨.scalar .int, by rw [Ser.isNamed, h, hc]; simp⟩
        · exact ⟨.enum [] constants, by rw [Ser.isNamed, h, hc]; simp⟩
      · exact ⟨.other [] [], by rw [Ser.isNamed, h]; rfl⟩
    | some info =>
      by_cases hc : isContainer t = true
      · simp only [isContainer, Bool.or_eq_true] at hc
        rcases hc with ((h | h) | h) | h
        · exact exists_isNamed_container proto ih (.inl h)
        · exact exists_isNamed_container proto ih (.inr (.inl h))
        · exact exists_isNamed_container proto ih (.inr (.inr h))
        · exact ⟨.map (.other [] []) (.other [] []), h⟩
      · obtain ⟨ss, hss⟩ := @exists_fieldsAreNamed proto info.fields fun f hf => by
          have := PojoInfo.weight_of_mem hf
          exact ih _ _ (by simp only [decodeWeight, nestedWeight_some]; omega)
        exact ⟨.pojo [] ss, by rw [Ser.isNamed, Option.any_some, hss]; simpa using hc⟩

/-! ### A serializer of the grammar is named by its own name and layout -/

/-- The constants of an enum are read back from its type name. -/
theorem enumConstants_typeName {className : Text} {constants : List Text}
    (hname : isPlainName className = true) (hconstants : ∀ c ∈ constants, isPlainName c = true)
    (hne : constants ≠ []) :
    enumConstants ("Enum<".toList ++ className ++ ':' :: joinCommas constants ++ ['>'])
      = some constants := by
  have hargs := typeArgs_brackets "Enum<".toList (className ++ ':' :: joinCommas constants)
  rw [← List.append_assoc] at hargs
  have hdrop : (className ++ ':' :: joinCommas constants).dropWhile (· != ':')
      = ':' :: joinCommas constants := by
    rw [List.dropWhile_append_of_pos fun c hc => by simpa using (plain_of_mem hname hc).2.2.2]
    rfl
  have hsplit : (joinCommas constants).splitOn ',' = constants :=
    List.splitOn_intercalate ',' (fun c hc hmem => (plain_of_mem (hconstants c hc) hmem).2.2.1 rfl)
      hne
  have hcolon : ':' ∈ className ++ ':' :: joinCommas constants := by simp
  rw [enumConstants, hargs, Option.bind_eq_bind, Option.bind_some, if_pos hcolon, hdrop,
    List.drop_one, List.tail_cons, hsplit]

/-- Only the serializer of byte arrays is called `byte[]`. -/
theorem Ser.eq_byteArray {s : Ser} (h : s.inGrammar = true)
    (hname : s.typeName = "byte[]".toList) : s = .scalar .byteArray := by
  have hfirst (c : Char) (t : Text) (ht : s.typeName = c :: t) : c = 'b' := by
    have := ht.symm.trans hname
    exact (List.cons.inj this).1
  cases s with
  | scalar s =>
    have := scalarOfName_name s
    rw [show s.name = Scalar.byteArray.name from hname, scalarOfName_name] at this
    rw [Option.some.inj this]
  | enum className constants =>
    unfold Ser.typeName at hname
    split at hname <;> exact absurd (List.cons.inj hname).1 (by decide)
  | stringArray => exact absurd hname (by decide)
  | tuple fields => exact absurd (hfirst 'T' _ rfl) (by decide)
  | list elem => exact absurd (hfirst 'L' _ rfl) (by decide)
  | array elem => exact absurd (hfirst 'A' _ rfl) (by decide)
  | nullable elem => exact absurd (hfirst 'N' _ rfl) (by decide)
  | map key value => cases h
  | pojo className fields =>
    simp only [Ser.inGrammar, show simpleName className = "byte[]".toList from hname,
      Bool.and_eq_true] at h
    exact absurd h.1 (by decide)
  | other snapshotClass payload => cases h

mutual

/-- A serializer of the grammar is named by its own name and layout. -/
theorem Ser.isNamed_typeName (s : Ser) (h : s.inGrammar = true) :
    s.isNamed proto s.typeName s.layout = true := by
  -- An induction on the serializer; each container's name gives its parts' names back.
  match s with
  | .scalar s =>
    exact Ser.isNamed_scalar proto s
  | .enum className constants =>
    simp only [Ser.inGrammar, Bool.and_eq_true, List.all_eq_true] at h
    unfold Ser.isNamed
    by_cases hne : constants = []
    · -- Without constants the name is not followed by a colon.
      subst hne
      have hargs : typeArgs "Enum<".toList (Ser.enum className []).typeName
          = some (simpleName className) := typeArgs_brackets _ _
      have hcolon : ':' ∉ simpleName className := fun hmem =>
        (plain_of_mem (isPlainName_of_java h.1.1) hmem).2.2.2 rfl
      have hconstants : enumConstants (Ser.enum className []).typeName = none := by
        rw [enumConstants, hargs, Option.bind_eq_bind, Option.bind_some, if_neg hcolon]
      rw [hconstants]
      rfl
    · have hconstants := enumConstants_typeName (isPlainName_of_java h.1.1)
        (fun c hc => isPlainName_of_java (h.1.2 c hc)) hne
      rw [List.append_assoc "Enum<".toList] at hconstants
      rw [Ser.typeName_enum className hne, hconstants, beq_self_eq_true]
      rfl
  | .stringArray => rfl
  | .tuple fields =>
    have hargs : typeArgs "Tuple<".toList (Ser.tuple fields).typeName
        = some (joinCommas (typeNames fields)) := typeArgs_brackets _ _
    rw [Ser.isNamed, hargs, Option.any_some, splitTopLevel_typeNames fields h,
      tupleIsNamed_typeNames fields h]
    rfl
  | .list elem =>
    have helem : elementType (Ser.list elem).typeName = elem.typeName := elementType_list _
    rw [Ser.isNamed, helem]
    exact Ser.isNamed_typeName elem h
  | .array elem =>
    have helem : elementType (Ser.array elem).typeName = elem.typeName := elementType_array _
    rw [Ser.isNamed, helem]
    exact Ser.isNamed_typeName elem h
  | .nullable elem =>
    have hargs : typeArgs "Nullable<".toList (Ser.nullable elem).typeName = some elem.typeName :=
      typeArgs_brackets _ _
    rw [Ser.isNamed, hargs, Option.getD_some]
    exact Ser.isNamed_typeName elem h
  | .pojo className fields =>
    rw [Ser.inGrammar, Bool.and_eq_true] at h
    -- a class name has no bracket, so it is not taken for a container
    have hname : isContainer (Ser.pojo className fields).typeName = false :=
      isContainer_of_plain (isPlainName_of_java h.1)
    rw [Ser.isNamed, hname]
    exact fieldsAreNamed_fieldInfos fields h.2

theorem tupleIsNamed_typeNames (fields : List Ser) (h : tupleInGrammar fields = true) :
    tupleIsNamed proto fields (typeNames fields) = true := by
  match fields with
  | [] => rfl
  | s :: ss =>
    simp only [tupleInGrammar, Bool.and_eq_true] at h
    have hfield := Ser.isNamed_typeName s h.1.1
    rw [Option.isNone_iff_eq_none.mp h.1.2] at hfield
    rw [typeNames, tupleIsNamed, s.trim_typeName h.1.1 h.1.2, hfield,
      tupleIsNamed_typeNames ss h.2]
    rfl

theorem fieldsAreNamed_fieldInfos (fields : List SerField) (h : fieldsInGrammar fields = true) :
    fieldsAreNamed proto fields (fieldInfos fields) = true := by
  match fields with
  | [] => rfl
  | .mk name s :: fs =>
    simp only [fieldsInGrammar, Bool.and_eq_true] at h
    have hs : s.inGrammar = true := h.1
    have hfield : (SerField.mk name s).isNamed proto (.mk name s.typeName s.layout) = true := by
      unfold SerField.isNamed
      rw [Bool.and_eq_true]
      refine ⟨beq_self_eq_true name, ?_⟩
      by_cases hbytes : s.typeName = "byte[]".toList ∧ anyPattern proto (·.bytesField = name)
      · obtain rfl := s.eq_byteArray hs hbytes.1
        exact if_pos hbytes
      · exact (if_neg hbytes).trans (Ser.isNamed_typeName s hs)
    exact Bool.and_eq_true_iff.mpr ⟨hfield, fieldsAreNamed_fieldInfos fs h.2⟩

end

end Named

end FlinkExplorer
