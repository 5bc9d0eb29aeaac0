import FlinkExplorer.Parser.JsonRead
import FlinkExplorer.Parser.StateValue

namespace FlinkExplorer

open Lib Lib.Read

/-!
# Decoded values are JSON values

Whatever bytes, type name and layout the decoder is given, the value it makes is one that serde_json
can hold and read back: objects are in the order of their keys, one member for each key, and numbers
read as they print.

* `Yields` — what a reader leaves, whether it succeeds or not;
* `SortedMembers.objInsert` — inserting a member keeps an object in order;
* `decodes_fieldFuel` — by induction on the depth of the type;
* `canonical_decodeStateValue`, `canonical_decodeMapEntry` — the value of a state.
-/

/-- Floats print as JSON numbers, and as such are read back. -/
structure FloatText.Readable (F : FloatText) : Prop where
  canonical32 : ∀ bits t, F.fromF32 bits = some t → (Number.float t).Canonical
  canonical64 : ∀ bits t, F.fromF64 bits = some t → (Number.float t).Canonical

/-! ### What a reader leaves -/

/-- What a reader returns satisfies `P`, and what it fails with `E`. -/
def Yields {ε β : Type} (p : ReadBytes ε β) (P : β → Prop) (E : ε → Prop) : Prop :=
  ∀ r, match (p r).1 with
    | .ok v => P v
    | .error e => E e

namespace Yields

variable {ε ε' β γ : Type} {P : β → Prop} {Q : γ → Prop} {E : ε → Prop} {E' : ε' → Prop}

/-- A value that is good is a good end. -/
theorem pure {v : β} (h : P v) : Yields (pure v : ReadBytes ε β) P E := fun _ => h

/-- An error that is good is a good end. -/
theorem throw {e : ε} (h : E e) : Yields (Read.throw e : ReadBytes ε β) P E := fun _ => h

/-- A step that ends well, and what follows its value. -/
theorem bind {p : ReadBytes ε β} {f : β → ReadBytes ε γ} (hp : Yields p P E)
    (hf : ∀ v, P v → Yields (f v) Q E) : Yields (p >>= f) Q E := by
  intro r
  have hr := hp r
  rcases heq : p r with ⟨e | v, s⟩
  · rw [heq] at hr
    rw [bind_error heq]
    exact hr
  · rw [heq] at hr
    rw [bind_ok heq]
    exact hf v hr s

theorem mapError {p : ReadBytes ε β} {g : ε → ε'} (hp : Yields p P E)
    (hg : ∀ e, E e → E' (g e)) : Yields (p.mapError g) P E' := by
  intro r
  have hr := hp r
  rcases heq : p r with ⟨e | v, s⟩
  · rw [heq] at hr
    rw [mapError_error heq]
    exact hg e hr
  · rw [heq] at hr
    rw [mapError_ok.mpr heq]
    exact hr

/-- A reader whose failures are all replaced. -/
theorem of_ensures {p : ReadBytes ε β} {g : ε → ε'} (hp : Ensures p P) (hg : ∀ e, E' (g e)) :
    Yields (p.mapError g) P E' := by
  intro r
  rcases heq : p r with ⟨e | v, s⟩
  · rw [mapError_error heq]
    exact hg e
  · rw [mapError_ok.mpr heq]
    exact hp r v s heq

/-- Going on whether or not something was read. -/
theorem attempt (p : ReadBytes ε' β) :
    Yields (Read.attempt p : ReadBytes ε (Option β)) (fun _ => True) E := by
  intro r
  unfold Read.attempt
  rcases p r with ⟨e | v, s⟩ <;> trivial

/-- What is read is no value yet. -/
theorem step {p : ReadBytes ε β} {g : ε → ε'} {f : β → ReadBytes ε' γ} (hg : ∀ e, E' (g e))
    (hf : ∀ v, Yields (f v) Q E') : Yields (p.mapError g >>= f) Q E' :=
  (of_ensures (Ensures.trivial p) hg).bind fun v _ => hf v

end Yields

/-- A decoder whose values are all read back as they print, markers included. -/
abbrev Decodes (p : ReadBytes Json Json) : Prop := Yields p Json.Canonical Json.Canonical

/-- Every text prints canonically. -/
theorem canonical_string (s : Text) : (Json.string s).Canonical := by
  rw [Json.Canonical]
  trivial

theorem canonical_null : Json.null.Canonical := by
  rw [Json.Canonical]
  trivial

/-- Every integer prints canonically. -/
theorem canonical_int (v : Int) : (Json.int v).Canonical := by
  rw [Json.int, Json.Canonical]
  trivial

theorem canonical_bool (b : Bool) : (Json.bool b).Canonical := by
  rw [Json.Canonical]
  trivial

/-- The items of an array, one by one. -/
theorem itemsCanonical_iff {items : List Json} :
    ItemsCanonical items ↔ ∀ v ∈ items, v.Canonical := by
  induction items with
  | nil => simp [ItemsCanonical]
  | cons v vs ih => simp [ItemsCanonical, ih]

/-- The members of an object, one by one. -/
theorem membersCanonical_iff {members : List (Text × Json)} :
    MembersCanonical members ↔ ∀ m ∈ members, m.2.Canonical := by
  induction members with
  | nil => simp [MembersCanonical]
  | cons m ms ih => simp [MembersCanonical, ih]

/-- An array of canonical values. -/
theorem canonical_array {items : List Json} (h : ∀ v ∈ items, v.Canonical) :
    (Json.array items).Canonical := by
  rw [Json.Canonical]
  exact itemsCanonical_iff.mpr h

/-! ### Objects stay in order -/

/-- The order of keys is transitive. -/
theorem textLt_trans {s t u : Text} (hst : textLt s t = true) (htu : textLt t u = true) :
    textLt s u = true := by
  induction s generalizing t u with
  | nil =>
    cases u with
    | nil =>
      cases t with
      | nil => cases hst
      | cons b t => cases htu
    | cons c u => rfl
  | cons a s ih =>
    cases t with
    | nil => cases hst
    | cons b t =>
      cases u with
      | nil => cases htu
      | cons c u =>
        simp only [textLt, Bool.or_eq_true, decide_eq_true_eq, Bool.and_eq_true, beq_iff_eq]
          at hst htu ⊢
        rcases hst with hlt | ⟨rfl, hst⟩
        · rcases htu with hlt' | ⟨rfl, -⟩
          · exact .inl (hlt.trans hlt')
          · exact .inl hlt
        · rcases htu with hlt' | ⟨rfl, htu⟩
          · exact .inl hlt'
          · exact .inr ⟨rfl, ih hst htu⟩

/-- The order of keys is total. -/
theorem textLt_of_not {s t : Text} (hne : s ≠ t) (h : ¬ textLt s t = true) : textLt t s = true := by
  induction s generalizing t with
  | nil =>
    cases t with
    | nil => exact absurd rfl hne
    | cons b t => exact absurd rfl h
  | cons a s ih =>
    cases t with
    | nil => rfl
    | cons b t =>
      simp only [textLt, Bool.or_eq_true, decide_eq_true_eq, Bool.and_eq_true, beq_iff_eq,
        not_or, not_and] at h ⊢
      obtain ⟨hle, hrest⟩ := h
      by_cases hab : a = b
      · subst hab
        exact .inr ⟨rfl, ih (fun heq => hne (congrArg _ heq)) (hrest rfl)⟩
      · have hval : a.toNat ≠ b.toNat := fun heq => hab (Char.toNat_inj.mp heq)
        exact .inl (by omega)

/-- What is in an object after an insertion was there, or was inserted. -/
theorem mem_objInsert {key : Text} {value : Json} {obj : List (Text × Json)} {m : Text × Json}
    (h : m ∈ objInsert key value obj) : m = (key, value) ∨ m ∈ obj := by
  induction obj with
  | nil => exact .inl (List.mem_singleton.mp h)
  | cons m' obj ih =>
    obtain ⟨k, v⟩ := m'
    rw [objInsert] at h
    split at h
    · rename_i hkey
      subst hkey
      exact (List.mem_cons.mp h).imp_right (List.mem_cons_of_mem _)
    · split at h
      · exact List.mem_cons.mp h
      · rcases List.mem_cons.mp h with rfl | h
        · exact .inr List.mem_cons_self
        · exact (ih h).imp_right (List.mem_cons_of_mem _)

/-- **Inserting a member keeps an object in order.** -/
theorem SortedMembers.objInsert {obj : List (Text × Json)} (h : SortedMembers obj) (key : Text)
    (value : Json) : SortedMembers (objInsert key value obj) := by
  induction obj with
  | nil => exact List.pairwise_singleton _ _
  | cons m obj ih =>
    obtain ⟨k, v⟩ := m
    obtain ⟨hfirst, hrest⟩ := List.pairwise_cons.mp h
    rw [FlinkExplorer.objInsert]
    split
    · rename_i hkey
      exact List.pairwise_cons.mpr ⟨hfirst, hrest⟩
    · rename_i hkey
      split
      · rename_i hlt
        refine List.pairwise_cons.mpr ⟨fun m hm => ?_, h⟩
        rcases List.mem_cons.mp hm with rfl | hm
        · exact hlt
        · exact textLt_trans hlt (hfirst m hm)
      · rename_i hlt
        refine List.pairwise_cons.mpr ⟨fun m hm => ?_, ih hrest⟩
        rcases mem_objInsert hm with rfl | hm
        · exact textLt_of_not hkey hlt
        · exact hfirst m hm

/-- An object that is in order, of values that are read back. -/
def GoodMembers (obj : List (Text × Json)) : Prop := SortedMembers obj ∧ MembersCanonical obj

/-- Members that are sorted and canonical make a canonical object. -/
theorem GoodMembers.canonical {obj : List (Text × Json)} (h : GoodMembers obj) :
    (Json.object obj).Canonical := by
  rw [Json.Canonical]
  exact h

theorem GoodMembers.nil : GoodMembers [] := ⟨List.Pairwise.nil, membersCanonical_iff.mpr (by simp)⟩

/-- An insertion keeps the members sorted. -/
theorem GoodMembers.objInsert {obj : List (Text × Json)} (h : GoodMembers obj) (key : Text)
    {value : Json} (hvalue : value.Canonical) : GoodMembers (objInsert key value obj) := by
  refine ⟨h.1.objInsert key value, membersCanonical_iff.mpr fun m hm => ?_⟩
  rcases mem_objInsert hm with rfl | hm
  · exact hvalue
  · exact membersCanonical_iff.mp h.2 m hm

/-- Members inserted one by one make an object that is in order. -/
theorem GoodMembers.membersInto {obj members : List (Text × Json)} (h : GoodMembers obj)
    (hmembers : ∀ m ∈ members, m.2.Canonical) : GoodMembers (membersInto obj members) := by
  unfold FlinkExplorer.membersInto
  induction members generalizing obj with
  | nil => exact h
  | cons m members ih =>
    exact ih (h.objInsert m.1 (hmembers m List.mem_cons_self)) fun m' hm' =>
      hmembers m' (List.mem_cons_of_mem m hm')

/-! ### Scalars -/

section Scalars

variable {F : FloatText}

/-- A float is as canonical as its text. -/
theorem canonical_float {text : Option Text}
    (h : ∀ t, text = some t → (Number.float t).Canonical) : (Json.float text).Canonical := by
  cases text with
  | none => exact canonical_null
  | some t =>
    show (Json.number (.float t)).Canonical
    rw [Json.Canonical]
    exact h t rfl

/-- A text, or null where there is none. -/
theorem canonical_textOrNull (v : Option Text) : (v.elim Json.null .string).Canonical := by
  cases v with
  | none => exact canonical_null
  | some t => exact canonical_string t

/-- A unit of UTF-16 shows as a text, or as its number. -/
theorem canonical_charValue (unit : UInt16) : (charValue unit).Canonical := by
  unfold charValue
  split
  · exact canonical_string _
  · exact canonical_string _

/-- Bytes show as a text. -/
theorem canonical_bytesToValue (b : Bytes) : (bytesToValue b).Canonical := by
  unfold bytesToValue
  dsimp only
  split
  · split
    · split
      · exact canonical_string _
      · exact canonical_string _
    · exact canonical_string _
  · exact canonical_string _

/-- An enum shows as an object of its type and its ordinal. -/
theorem canonical_enumValue (typeName : Text) (ordinal : Int32) :
    (enumValue typeName ordinal).Canonical := by
  unfold enumValue
  dsimp only
  split
  · exact canonical_int _
  · cases (enumConstants typeName).bind fun cs => cs[ordinal.toInt.toNat]? with
    | none => exact canonical_int _
    | some t => exact canonical_string t

/-- A double that is read is canonical. -/
theorem ensures_doubleValue (hF : F.Readable) : Ensures (doubleValue F) Json.Canonical :=
  .step fun v => .pure (canonical_float fun t ht => hF.canonical64 v.toUInt64 t ht)

/-- A float that is read is canonical. -/
theorem ensures_floatValue (hF : F.Readable) : Ensures (floatValue F) Json.Canonical :=
  .step fun v => .pure (canonical_float fun t ht => hF.canonical32 v.toUInt32 t ht)

/-- An array of canonical elements. -/
theorem ensures_readPrimArray {readOne : ReadBytes Unit Json}
    (h : Ensures readOne Json.Canonical) : Ensures (readPrimArray readOne) Json.Canonical := by
  refine .step fun len => ?_
  split
  · exact (Ensures.many h _).bind fun items hitems => .pure (canonical_array hitems.2)
  · exact .throw _ _

/-- **A scalar** that is read is canonical. -/
theorem ensures_readScalar (hF : F.Readable) (s : Scalar) :
    Ensures (readScalar F s) Json.Canonical := by
  have hint : Ensures intValue Json.Canonical := .step fun _ => .pure (canonical_int _)
  have hlong : Ensures longValue Json.Canonical := .step fun _ => .pure (canonical_int _)
  have hshort : Ensures shortValue Json.Canonical := .step fun _ => .pure (canonical_int _)
  have hbool : Ensures booleanValue Json.Canonical := .step fun _ => .pure (canonical_bool _)
  have hunit : Ensures unitValue Json.Canonical := .step fun _ => .pure (canonical_charValue _)
  have hstring {β : Type} {p : ReadBytes Unit β} {f : β → Text} :
      Ensures (p >>= fun v => pure (Json.string (f v))) Json.Canonical :=
    .step fun _ => .pure (canonical_string _)
  cases s with
  | int => exact hint
  | long => exact hlong
  | boolean => exact hbool
  | double => exact ensures_doubleValue hF
  | float => exact ensures_floatValue hF
  | short => exact hshort
  | byte => exact .step fun _ => .pure (canonical_int _)
  | char => exact hunit
  -- a null of Flink is `null`
  | bigInteger => exact .step fun v => .pure (canonical_textOrNull v)
  | bigDecimal => exact .step fun v => .pure (canonical_textOrNull v)
  | string => exact .step fun v => .pure (canonical_textOrNull v)
  | byteArray => exact .step fun b => .pure (canonical_bytesToValue b)
  | localDateTime =>
    exact .step fun _ => .step fun _ => .step fun _ => .step fun _ => .step fun _ => .step fun _ =>
      hstring
  | localDate => exact .step fun _ => .step fun _ => hstring
  | localTime => exact .step fun _ => .step fun _ => .step fun _ => hstring
  | instant => exact .step fun _ => hstring
  | date => exact hstring
  | timestamp => exact .step fun _ => .step fun _ => .pure (canonical_string _)
  | enumOrdinal => exact hstring
  | intArray => exact ensures_readPrimArray hint
  | longArray => exact ensures_readPrimArray hlong
  | doubleArray => exact ensures_readPrimArray (ensures_doubleValue hF)
  | floatArray => exact ensures_readPrimArray (ensures_floatValue hF)
  | shortArray => exact ensures_readPrimArray hshort
  | booleanArray => exact ensures_readPrimArray hbool
  | charArray => exact ensures_readPrimArray hunit

/-- A scalar of a named type. -/
theorem ensures_decodeScalar (hF : F.Readable) (t : Text) :
    Ensures (decodeScalar F t) Json.Canonical := by
  unfold decodeScalar
  split
  · exact ensures_readScalar hF _
  · split
    · exact .step fun _ => .pure (canonical_enumValue t _)
    · exact .throw _ _

end Scalars

/-! ### Parts of a value -/

/-- The marker of a value that could not be read is a text. -/
theorem canonical_undecodable (t : Text) : (undecodable t).Canonical := canonical_string _

/-- A list that stopped holds what it read, and markers. -/
theorem canonical_stoppedAt {items : List Json} (hitems : ∀ v ∈ items, v.Canonical) {failed : Json}
    (hfailed : failed.Canonical) (rest : Nat) : (stoppedAt items failed rest).Canonical := by
  refine canonical_array fun v hv => ?_
  rcases List.mem_append.mp hv with hv | hv
  · exact hitems v hv
  · rcases List.mem_cons.mp hv with rfl | hv
    · exact hfailed
    · split at hv
      · obtain rfl := List.mem_singleton.mp hv
        exact canonical_string _
      · exact absurd hv List.not_mem_nil

/-- One value more. -/
theorem canonical_append {items : List Json} (hitems : ∀ v ∈ items, v.Canonical) {v : Json}
    (hv : v.Canonical) : ∀ v' ∈ items ++ [v], v'.Canonical := by
  intro v' hv'
  rcases List.mem_append.mp hv' with hv' | hv'
  · exact hitems v' hv'
  · rw [List.mem_singleton.mp hv']
    exact hv

/-- The elements of an array, one after the other. -/
theorem decodes_elements {readOne : ReadBytes Json Json} (h : Decodes readOne) (left : Nat)
    {items : List Json} (hitems : ∀ v ∈ items, v.Canonical) :
    Decodes (decodeElements readOne items left) := by
  induction left generalizing items with
  | zero => exact .pure (canonical_array hitems)
  | succ left ih =>
    exact (h.mapError fun _ hfailed => canonical_stoppedAt hitems hfailed left).bind
      fun v hv => ih (canonical_append hitems hv)

/-- A size that is refused ends in a canonical value. -/
theorem yields_readSize (limit : Int) (t : Text) :
    Yields (readSize limit t) (fun _ => True) Json.Canonical := by
  refine .step (fun _ => canonical_undecodable t) fun n => ?_
  split
  · exact .pure trivial
  · exact .throw (canonical_undecodable t)

theorem decodes_stringArray : Decodes decodeStringArray :=
  (yields_readSize _ _).bind fun len _ => decodes_elements
    (.step (fun _ => canonical_undecodable _) fun s => .pure (canonical_textOrNull s)) len
    (fun _ h => absurd h List.not_mem_nil)

/-! ### Composite values -/

section Composite

variable {F : FloatText} {proto : Option ProtoContext} {dec : FieldDecoder}
  (hdec : ∀ t nested, Decodes (dec t nested))

include hdec

/-- An element of an array, of any type. -/
theorem decodes_arrayElement (t : Text) (nested : Option PojoInfo) :
    Decodes (decodeArrayElement dec t nested) := by
  refine .step (fun _ => canonical_undecodable t) fun present => ?_
  split
  · exact hdec t nested
  · exact .pure canonical_null

/-- A list, of any type. -/
theorem decodes_listField (t : Text) (nested : Option PojoInfo) :
    Decodes (decodeListField dec t nested) := by
  refine (yields_readSize _ _).bind fun size _ => ?_
  refine decodes_elements ?_ size (fun _ h => absurd h List.not_mem_nil)
  split
  · exact decodes_arrayElement hdec _ nested
  · exact hdec _ nested

/-- The fields of a tuple, from the `i`-th. -/
theorem decodes_tupleFields (i : Nat) {items : List Json} (hitems : ∀ v ∈ items, v.Canonical)
    (ts : List Text) : Decodes (decodeTupleFields dec i items ts) := by
  induction ts generalizing i items with
  | nil => exact .pure (canonical_array hitems)
  | cons t ts ih =>
    refine Yields.bind ((hdec (trim t) none).mapError fun failed hfailed => ?_)
      fun v hv => ih (i + 1) (canonical_append hitems hv)
    -- the fields after the lost one are marked
    refine canonical_array fun v hv => ?_
    rcases List.mem_append.mp hv with hv | hv
    · exact hitems v hv
    · rcases List.mem_cons.mp hv with rfl | hv
      · exact hfailed
      · obtain ⟨_, -, rfl⟩ := List.mem_map.mp hv
        exact canonical_string _

/-- A tuple. -/
theorem decodes_tuple (t : Text) : Decodes (decodeTuple dec t) := by
  unfold decodeTuple
  split
  · exact .throw (canonical_undecodable t)
  · exact decodes_tupleFields hdec 0 (fun _ h => absurd h List.not_mem_nil) _

/-- A value behind a flag. -/
theorem decodes_nullable (t : Text) (nested : Option PojoInfo) :
    Decodes (decodeNullable dec t nested) := by
  refine .step (fun _ => canonical_undecodable t) fun isNull => ?_
  split
  · exact .pure canonical_null
  · exact hdec _ nested

/-! ### POJOs -/

omit hdec in
/-- A decoded message beside its fields. -/
theorem canonical_applyProto {st : PojoState} (h : GoodMembers st.obj) :
    (applyProto proto st).Canonical := by
  unfold applyProto
  split
  · dsimp only
    split
    · exact (h.objInsert _ (canonical_string _)).canonical
    · exact h.canonical
  · exact h.canonical

omit hdec in
/-- The fields after one that could not be read are marked. -/
theorem goodMembers_markLost {st : PojoState} (h : GoodMembers st.obj) (name : Text) {failed : Json}
    (hfailed : failed.Canonical) (later : List PojoField) :
    GoodMembers (markLost name failed later st).obj := by
  show GoodMembers (later.foldl (fun obj f => objInsert f.name (notDecodedAfter name) obj)
    (objInsert name failed st.obj))
  have hobj := h.objInsert name hfailed
  generalize objInsert name failed st.obj = obj at hobj ⊢
  induction later generalizing obj with
  | nil => exact hobj
  | cons f later ih => exact ih _ (hobj.objInsert f.name (canonical_string _))

omit hdec in
/-- What is noted of a class leaves the object as it is. -/
theorem obj_captureProtoClass (name : Text) (v : Json) (st : PojoState) :
    (captureProtoClass proto name v st).obj = st.obj := by
  unfold captureProtoClass
  split
  · split
    · rfl
    · rfl
  · rfl

/-- A field is a value, and leaves the object to its reader. -/
theorem yields_pojoField (field : PojoField) (st : PojoState) :
    Yields (decodePojoField proto dec field st) (fun r => r.1.Canonical ∧ r.2.obj = st.obj)
      Json.Canonical := by
  refine .step (fun _ => canonical_undecodable _) fun isNull => ?_
  split
  · exact .pure ⟨canonical_null, rfl⟩
  · split
    · exact .step (fun _ => canonical_undecodable _) fun bytes => .pure ⟨canonical_string _, rfl⟩
    · exact Yields.bind (hdec field.typeName field.nestedPojo) fun v hv =>
        .pure ⟨hv, obj_captureProtoClass _ _ _⟩

/-- **The fields of a record**, one after the other. -/
theorem decodes_pojoFields {st : PojoState} (h : GoodMembers st.obj) (fs : List PojoField) :
    Decodes (decodePojoFields proto dec st fs) := by
  induction fs generalizing st with
  | nil => exact .pure (canonical_applyProto h)
  | cons f fs ih =>
    refine Yields.bind ((yields_pojoField hdec f st).mapError fun failed hfailed =>
      canonical_applyProto (goodMembers_markLost h f.name hfailed fs)) fun r hr => ?_
    obtain ⟨v, st'⟩ := r
    obtain ⟨hv, hobj⟩ := hr
    have hinserted : GoodMembers (objInsert f.name v st'.obj) := by
      rw [hobj]
      exact h.objInsert f.name hv
    exact ih hinserted

/-- A POJO's members are put in under their names, so no name comes twice. -/
theorem decodes_pojoBody (flags : UInt8) (info : PojoInfo) :
    Decodes (decodePojoBody proto dec flags info) := by
  unfold decodePojoBody
  split
  · exact .pure canonical_null
  · split
    · exact (Yields.attempt readUtf).bind fun _ _ => .throw (canonical_string _)
    · split
      · exact (Yields.attempt readByte).bind fun _ _ => .throw (canonical_string _)
      · exact decodes_pojoFields hdec .nil info.fields

theorem decodes_pojoWith (info : PojoInfo) : Decodes (decodePojoWith proto dec info) := by
  refine .step (fun _ => canonical_undecodable _) fun flags => ?_
  split
  · exact .step (fun _ => canonical_undecodable _) fun flags => decodes_pojoBody hdec flags info
  · exact decodes_pojoBody hdec flags info

/-! ### Any value -/

/-- What a type's name decodes to, where its parts are canonical. -/
theorem decodes_byName (hF : F.Readable) (t : Text) (nested : Option PojoInfo) :
    Decodes (decodeByName F dec t nested) := by
  unfold decodeByName
  split
  · exact decodes_stringArray
  · split
    · exact decodes_tuple hdec t
    · split
      · exact decodes_listField hdec t nested
      · split
        · exact decodes_nullable hdec t nested
        · exact .of_ensures (ensures_decodeScalar hF t) fun _ => canonical_undecodable t

/-- One level of `decode_field`, given the level below. -/
theorem decodes_fieldWith (hF : F.Readable) (t : Text) (nested : Option PojoInfo) :
    Decodes (decodeFieldWith F proto dec t nested) := by
  unfold decodeFieldWith
  split
  · split
    · exact decodes_byName hdec hF t _
    · exact decodes_pojoWith hdec _
  · exact decodes_byName hdec hF t none

end Composite

section Values

variable {F : FloatText} (hF : F.Readable) (proto : Option ProtoContext)

include hF

/-- `decode_field` to any depth. -/
theorem decodes_fieldFuel (depth : Nat) (t : Text) (nested : Option PojoInfo) :
    Decodes (decodeFieldFuel F proto depth t nested) := by
  induction depth generalizing t nested with
  | zero => exact .throw (canonical_undecodable t)
  | succ depth ih => exact decodes_fieldWith ih hF t nested

/-- **A field is read back as it prints**, whatever its type, its layout and its bytes. -/
theorem decodes_field (t : Text) (nested : Option PojoInfo) : Decodes (decodeField F proto t nested) :=
  decodes_fieldFuel hF proto _ t nested

theorem decodes_pojo (info : PojoInfo) : Decodes (decodePojo F proto info) :=
  decodes_pojoWith (decodes_field hF proto) info

omit hF in
/-- What is shown of a read: the value, or the marker where decoding stopped. -/
theorem Yields.valueOf {p : ReadBytes Json Json} (h : Decodes p) (r : JavaReader) :
    (FlinkExplorer.valueOf (p r).1).Canonical := by
  have hr := h r
  unfold FlinkExplorer.valueOf
  split <;> rename_i heq <;> rw [heq] at hr <;> exact hr

omit hF in
/-- The elements of a list, up to where one does not decode. -/
theorem canonical_listLoop {decode : ReadBytes Json Json} (h : Decodes decode) (fuel : Nat)
    {items : List Json} (hitems : ∀ v ∈ items, v.Canonical) (r : JavaReader) :
    ∀ v ∈ decodeListLoop decode fuel items r, v.Canonical := by
  induction fuel generalizing items r with
  | zero => exact hitems
  | succ fuel ih =>
    have hr := h r
    rw [decodeListLoop]
    rcases heq : decode r with ⟨failed | v, r'⟩ <;> rw [heq] at hr
    · -- the failed element, and what stands for the rest
      have hfailed := canonical_append hitems hr
      dsimp only
      split
      · have hrest := canonical_append hfailed (canonical_string _ : restOfList.Canonical)
        rwa [List.append_assoc] at hrest
      · exact hfailed
    · have hnext := canonical_append hitems hr
      dsimp only
      split
      · exact hnext
      · rcases readByte r' with ⟨e | b, r''⟩
        · exact hnext
        · dsimp only
          split
          · exact ih hnext r''
          · exact hnext

theorem canonical_decodeList (r : JavaReader) (elemType : Text) (elemPojo : Option PojoInfo) :
    (decodeList F proto r elemType elemPojo).Canonical := by
  refine canonical_array (canonical_listLoop ?_ _ (fun _ h => absurd h List.not_mem_nil) r)
  cases elemPojo with
  | none => exact decodes_field hF proto elemType none
  | some info => exact decodes_pojo hF proto info

theorem canonical_decodeTtl (bytes : Bytes) (valueType inner : Text) (pojo : Option PojoInfo) :
    (decodeTtl F proto bytes valueType inner pojo).Canonical := by
  unfold decodeTtl
  rcases readLong (JavaReader.new bytes) with ⟨e | ts, r⟩
  · exact canonical_undecodable valueType
  · have hmembers (v : Json) (hv : v.Canonical) : GoodMembers
        [("_ttlLastAccess".toList, .string (millisToIso ts.toInt)), ("value".toList, v)] := by
      have hlt : textLt "_ttlLastAccess".toList "value".toList = true := by decide
      refine ⟨List.pairwise_pair.mpr hlt, membersCanonical_iff.mpr fun m hm => ?_⟩
      rcases List.mem_pair.mp hm with rfl | rfl
      · exact canonical_string _
      · exact hv
    cases pojo with
    | none => exact (hmembers _ ((decodes_field hF proto inner none).valueOf r)).canonical
    | some info => exact (hmembers _ ((decodes_pojo hF proto info).valueOf r)).canonical

omit hF in
/-- The value of a map's entry, given that values are canonical. -/
theorem canonical_mapEntryWith {decodeValue : Bytes → Json}
    (hvalue : ∀ bytes, (decodeValue bytes).Canonical) (namespaceBytes value : Bytes)
    (keyType valType : Text) (fallbackKey : Nat) :
    (decodeMapEntryWith F proto decodeValue namespaceBytes value keyType valType
      fallbackKey).2.Canonical := by
  unfold decodeMapEntryWith
  cases value with
  | nil => exact canonical_undecodable valType
  | cons b rest =>
    dsimp only
    split
    · exact canonical_null
    · exact hvalue rest

omit hF in
/-- The entries of a map blob are put into an object one after the other. -/
theorem goodMembers_mapBlobLoop {decodeValue : Bytes → Json}
    (hvalue : ∀ bytes, (decodeValue bytes).Canonical) (keyType valType : Text) (count i : Nat)
    {obj : List (Text × Json)} (h : GoodMembers obj) (r : JavaReader) :
    GoodMembers (mapBlobLoop F proto decodeValue keyType valType count i obj r) := by
  induction count generalizing i obj r with
  | zero => exact h
  | succ count ih =>
    rw [mapBlobLoop]
    rcases readLenBytes r with ⟨e | ns, r⟩
    · exact h
    · dsimp only
      rcases readLenBytes r with ⟨e | val, r⟩
      · exact h
      · exact ih (i + 1) (h.objInsert _ (canonical_mapEntryWith proto hvalue ns val keyType valType i)) r

omit hF in
theorem canonical_mapBlob {decodeValue : Text → Bytes → Json}
    (hvalue : ∀ t bytes, (decodeValue t bytes).Canonical) (bytes : Bytes) (valueType : Text) :
    (decodeMapBlob F proto decodeValue bytes valueType).Canonical := by
  unfold decodeMapBlob
  dsimp only
  rcases readInt (JavaReader.new bytes) with ⟨e | count, r⟩
  · exact canonical_undecodable valueType
  · dsimp only
    split
    · exact (goodMembers_mapBlobLoop proto (hvalue _) _ _ _ 0 .nil r).canonical
    · exact canonical_undecodable valueType

/-- One level of `decode_state_value`, given the level below. -/
theorem canonical_stateValueWith {decodeValue : Text → Bytes → Json}
    (hvalue : ∀ t bytes, (decodeValue t bytes).Canonical) (bytes : Bytes) (valueType : Text)
    (pojo : Option PojoInfo) :
    (decodeStateValueWith F proto decodeValue bytes valueType pojo).Canonical := by
  have hfield := (decodes_field hF proto valueType none).valueOf (JavaReader.new bytes)
  unfold decodeStateValueWith
  split
  · exact canonical_null
  · split
    · exact canonical_mapBlob proto hvalue bytes valueType
    · split
      · exact canonical_decodeTtl hF proto bytes valueType _ pojo
      · split
        · exact canonical_decodeList hF proto _ _ _
        · split
          · split
            · exact hfield
            · exact (decodes_pojo hF proto _).valueOf _
          · exact hfield

/-- **The value of a state is read back as it prints.** -/
theorem canonical_decodeStateValue (bytes : Bytes) (valueType : Text) (pojo : Option PojoInfo) :
    (decodeStateValue F proto bytes valueType pojo).Canonical := by
  unfold decodeStateValue
  generalize valueType.length + 1 = depth
  induction depth generalizing valueType bytes with
  | zero => exact canonical_undecodable valueType
  | succ depth ih =>
    exact canonical_stateValueWith hF proto (fun t b => ih b t) bytes valueType pojo

/-- **So is the value of an entry of a map.** -/
theorem canonical_decodeMapEntry (namespaceBytes value : Bytes) (keyType valType : Text)
    (pojo : Option PojoInfo) (fallbackKey : Nat) :
    (decodeMapEntry F proto namespaceBytes value keyType valType pojo fallbackKey).2.Canonical :=
  canonical_mapEntryWith proto (fun bytes => canonical_decodeStateValue hF proto bytes valType pojo)
    namespaceBytes value keyType valType fallbackKey

end Values

end FlinkExplorer
