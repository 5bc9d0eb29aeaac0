import FlinkExplorer.Parser.ValueRec

namespace FlinkExplorer

open Lib Lib.Read

/-!
# Which branch of `decode_field` a type name selects

One equation for each branch, under the test the source makes on the name.  A name that none of
them takes is not decoded at all (`decodeByName_unknown`).
-/

section Dispatch

variable (F : FloatText) (dec : FieldDecoder) (nested : Option PojoInfo)

/-- The arguments of a type name are what stands in its brackets. -/
theorem typeArgs_brackets (name inner : Text) : typeArgs name (name ++ inner ++ ['>']) = some inner :=
  typeArgs_eq_some.mpr rfl

/-- A name with a prefix is the prefix and the rest. -/
theorem eq_append_of_isPrefixOf {p t : Text} (h : p.isPrefixOf t = true) : ∃ rest, t = p ++ rest := by
  obtain ⟨rest, hrest⟩ := List.isPrefixOf_iff_prefix.mp h
  exact ⟨rest, hrest.symm⟩

/-- A scalar by its name. -/
theorem decodeByName_scalar (s : Scalar) :
    decodeByName F dec s.name nested = (readScalar F s).mapError fun _ => undecodable s.name := by
  have hdisp : decodeByName F dec s.name nested
      = (decodeScalar F s.name).mapError fun _ => undecodable s.name := by
    cases s <;> rfl
  rw [hdisp, decodeScalar, scalarOfName_name]

/-- The one array that has a name of its own. -/
theorem decodeByName_stringArray :
    decodeByName F dec "String[]".toList nested = decodeStringArray := rfl

/-- A tuple: its fields in a row. -/
theorem decodeByName_tuple {t inner : Text} (h : typeArgs "Tuple<".toList t = some inner) :
    decodeByName F dec t nested = decodeTupleFields dec 0 [] (splitTopLevel inner) := by
  obtain rfl := typeArgs_eq_some.mp h
  have hdisp : decodeByName F dec ("Tuple<".toList ++ inner ++ ['>']) nested
      = decodeTuple dec ("Tuple<".toList ++ inner ++ ['>']) := rfl
  rw [hdisp, decodeTuple, h]

/-- A list: its size, then that many elements. -/
theorem decodeByName_list {t : Text} (h : "List<".toList.isPrefixOf t = true) :
    decodeByName F dec t nested = (do
      let size ← readSize 1000000 t
      decodeElements (dec (elementType t) nested) [] size) := by
  obtain ⟨rest, rfl⟩ := eq_append_of_isPrefixOf h
  have hdisp : decodeByName F dec ("List<".toList ++ rest) nested
      = decodeListField dec ("List<".toList ++ rest) nested := rfl
  have hlist : "Array<".toList.isPrefixOf ("List<".toList ++ rest) = false := rfl
  rw [hdisp, decodeListField, hlist]
  rfl

/-- An array: the same, with a null flag for each element. -/
theorem decodeByName_array {t : Text} (h : "Array<".toList.isPrefixOf t = true) :
    decodeByName F dec t nested = (do
      let size ← readSize 1000000 t
      decodeElements (decodeArrayElement dec (elementType t) nested) [] size) := by
  obtain ⟨rest, rfl⟩ := eq_append_of_isPrefixOf h
  have hdisp : decodeByName F dec ("Array<".toList ++ rest) nested
      = decodeListField dec ("Array<".toList ++ rest) nested := rfl
  have harray : "Array<".toList.isPrefixOf ("Array<".toList ++ rest) = true := rfl
  rw [hdisp, decodeListField, harray]
  rfl

/-- A null flag, then the value under it. -/
theorem decodeByName_nullable {t : Text} (h : "Nullable<".toList.isPrefixOf t = true) :
    decodeByName F dec t nested = (do
      let isNull ← readBoolean.mapError fun _ => undecodable t
      if isNull then pure .null
      else dec ((typeArgs "Nullable<".toList t).getD ['?']) nested) := by
  obtain ⟨rest, rfl⟩ := eq_append_of_isPrefixOf h
  rfl

/-- No scalar's name has a bracket. -/
theorem scalarOfName_eq_none {t : Text} (h : '<' ∈ t) : scalarOfName t = none := by
  have hplain (s : Scalar) : '<' ∉ s.name := by cases s <;> decide
  rcases hs : scalarOfName t with _ | s
  · rfl
  · exact absurd (scalarOfName_eq_some.mp hs ▸ h) (hplain s)

/-- An enum: its ordinal. -/
theorem decodeByName_enum {t : Text} (h : "Enum<".toList.isPrefixOf t = true) :
    decodeByName F dec t nested = (do
      let ordinal ← ok readInt
      pure (enumValue t ordinal) : ReadBytes Unit Json).mapError fun _ => undecodable t := by
  obtain ⟨rest, rfl⟩ := eq_append_of_isPrefixOf h
  have hscalar : scalarOfName ("Enum<".toList ++ rest) = none :=
    scalarOfName_eq_none (List.mem_append_left _ (by decide))
  have hdisp : decodeByName F dec ("Enum<".toList ++ rest) nested
      = (decodeScalar F ("Enum<".toList ++ rest)).mapError
        fun _ => undecodable ("Enum<".toList ++ rest) := rfl
  rw [hdisp, decodeScalar, hscalar]
  exact congrArg (Read.mapError _) (if_pos h)

/-- A name no branch of the decoder takes. -/
def isUnknownType (t : Text) : Bool :=
  t != "String[]".toList && (typeArgs "Tuple<".toList t).isNone && !"List<".toList.isPrefixOf t
    && !"Array<".toList.isPrefixOf t && !"Nullable<".toList.isPrefixOf t
    && (scalarOfName t).isNone && !"Enum<".toList.isPrefixOf t

/-- A map inside a value is not decoded. -/
theorem isUnknownType_map {t : Text} (h : "Map<".toList.isPrefixOf t = true) :
    isUnknownType t = true := by
  obtain ⟨rest, rfl⟩ := eq_append_of_isPrefixOf h
  have hscalar : scalarOfName ("Map<".toList ++ rest) = none :=
    scalarOfName_eq_none (List.mem_append_left _ (by decide))
  have htuple : typeArgs "Tuple<".toList ("Map<".toList ++ rest) = none := rfl
  unfold isUnknownType
  rw [hscalar, htuple]
  rfl

/-- A type that is not known is not decoded. -/
theorem decodeByName_unknown {t : Text} (h : isUnknownType t = true) :
    decodeByName F dec t nested = Read.throw (undecodable t) := by
  simp only [isUnknownType, Bool.and_eq_true, bne_iff_ne, Option.isNone_iff_eq_none,
    Bool.not_eq_true'] at h
  obtain ⟨⟨⟨⟨⟨⟨hstrings, htuple⟩, hlist⟩, harray⟩, hnullable⟩, hscalar⟩, henum⟩ := h
  unfold decodeByName
  rw [if_neg hstrings]
  by_cases htuplePrefix : "Tuple<".toList.isPrefixOf t = true
  · rw [if_pos htuplePrefix, decodeTuple, htuple]
  · rw [if_neg htuplePrefix, if_neg (by rw [hlist, harray]; decide), if_neg (by rw [hnullable]; decide),
      decodeScalar, hscalar]
    simp only [henum]
    rfl

/-- **A name of a type** is of one of these kinds. -/
theorem type_cases (t : Text) :
    (∃ s : Scalar, t = s.name) ∨ t = "String[]".toList ∨
      (∃ inner, typeArgs "Tuple<".toList t = some inner) ∨ "List<".toList.isPrefixOf t = true ∨
      "Array<".toList.isPrefixOf t = true ∨ "Nullable<".toList.isPrefixOf t = true ∨
      "Enum<".toList.isPrefixOf t = true ∨ isUnknownType t = true := by
  by_cases hunknown : isUnknownType t = true
  · exact .inr (.inr (.inr (.inr (.inr (.inr (.inr hunknown))))))
  · simp only [isUnknownType, Bool.and_eq_true, bne_iff_ne, Option.isNone_iff_eq_none,
      Bool.not_eq_true', not_and_or, not_not, Bool.not_eq_false] at hunknown
    rcases hunknown with (((((h | h) | h) | h) | h) | h) | h
    · exact .inr (.inl h)
    · exact .inr (.inr (.inl (Option.ne_none_iff_exists'.mp h)))
    · exact .inr (.inr (.inr (.inl h)))
    · exact .inr (.inr (.inr (.inr (.inl h))))
    · exact .inr (.inr (.inr (.inr (.inr (.inl h)))))
    · obtain ⟨s, hs⟩ := Option.ne_none_iff_exists'.mp h
      exact .inl ⟨s, scalarOfName_eq_some.mp hs⟩
    · exact .inr (.inr (.inr (.inr (.inr (.inr (.inl h))))))

/-- A list keeps the layout it is given for its elements. -/
theorem isContainer_list {t : Text} (h : "List<".toList.isPrefixOf t = true) :
    isContainer t = true := by
  rw [isContainer, h]
  rfl

/-- So does an array, -/
theorem isContainer_array {t : Text} (h : "Array<".toList.isPrefixOf t = true) :
    isContainer t = true := by
  rw [isContainer, h, Bool.or_true]
  rfl

/-- a nullable, -/
theorem isContainer_nullable {t : Text} (h : "Nullable<".toList.isPrefixOf t = true) :
    isContainer t = true := by
  rw [isContainer, h, Bool.or_true]
  rfl

/-- and a map. -/
theorem isContainer_map {t : Text} (h : "Map<".toList.isPrefixOf t = true) :
    isContainer t = true := by
  rw [isContainer, h, Bool.or_true]

/-- A scalar, with patterns or without. -/
theorem decodeField_scalar (proto : Option ProtoContext) (s : Scalar) :
    decodeField F proto s.name none = (readScalar F s).mapError fun _ => undecodable s.name :=
  (decodeField_none F proto _).trans (decodeByName_scalar F _ none s)

end Dispatch

end FlinkExplorer
