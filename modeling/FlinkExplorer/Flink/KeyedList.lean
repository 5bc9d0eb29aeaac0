import FlinkExplorer.Flink.RoundTrip
import FlinkExplorer.Parser.StateValue

namespace FlinkExplorer

open Lib Lib.Read

/-!
# `decode_list` — what a keyed list shows

`ListDelimitedSerializer` writes the elements of a keyed list back to back, a `,` between them.

* `delimited` — the bytes of a list; `keyedList` — what the loop shows of some bytes;
* `keyedList_elements` — the loop reads element after element;
* `StopsEarly` — the ways it stops before the bytes are used up, and `CutShort` those of them
  that it does not tell;
* `keyedList_shows_iff` — a list is shown whole or with a marker at its end, exactly where it is
  not cut short;
* `keyedList_encode` — the elements Flink writes.
-/

/-! ### Lists of elements -/

/-- The decoder of a list's elements. -/
def elementDecoder (F : FloatText) (proto : Option ProtoContext) (elemType : Text)
    (elemPojo : Option PojoInfo) : ReadBytes Json Json :=
  match elemPojo with
  | some info => decodePojo F proto info
  | none => decodeField F proto elemType none

/-- The items `decodeList` shows. -/
def keyedList (decode : ReadBytes Json Json) (bytes : Bytes) : List Json :=
  decodeListLoop decode (bytes.length + 1) [] (JavaReader.new bytes)

theorem decodeList_eq (F : FloatText) (proto : Option ProtoContext) (bytes : Bytes)
    (elemType : Text) (elemPojo : Option PojoInfo) :
    decodeList F proto (JavaReader.new bytes) elemType elemPojo
      = .array (keyedList (elementDecoder F proto elemType elemPojo) bytes) := rfl

/-- An element: its bytes, and what is shown of it. -/
abbrev Element : Type := Bytes × Json

/-- The bytes of a list of at least one element. -/
def delimited (e : Element) : List Element → Bytes
  | [] => e.1
  | e' :: es => e.1 ++ listDelimiter :: delimited e' es

/-- The elements are what the decoder reads. -/
def AllRead (decode : ReadBytes Json Json) (es : List Element) : Prop :=
  ∀ e ∈ es, Reads decode e.1 e.2

theorem length_le_delimited (e : Element) (es : List Element) :
    es.length ≤ (delimited e es).length := by
  induction es generalizing e with
  | nil => exact Nat.zero_le _
  | cons e' es ih =>
    have h := ih e'
    rw [delimited, List.length_append, List.length_cons, List.length_cons]
    omega

/-- The first `n + 1` of more elements, and the rest behind a delimiter. -/
theorem delimited_append (e : Element) (es : List Element) (e' : Element) (es' : List Element) :
    delimited e (es ++ e' :: es') = delimited e es ++ listDelimiter :: delimited e' es' := by
  induction es generalizing e with
  | nil => rfl
  | cons e₁ es ih => rw [List.cons_append, delimited, delimited, ih, List.append_assoc]; rfl

/-! ### The loop -/

section Loop

variable {decode : ReadBytes Json Json}

/-- The loop after an element: the limit, then the delimiter. -/
def afterElement (decode : ReadBytes Json Json) (fuel : Nat) (items : List Json)
    (r : JavaReader) : List Json :=
  if items.length > 1000000 then items
  else
    match readByte r with
    | (.ok b, r) => if b = listDelimiter then decodeListLoop decode fuel items r else items
    | (.error _, _) => items

theorem decodeListLoop_element {fuel : Nat} {items : List Json} {r r' : JavaReader} {v : Json}
    (h : decode r = (.ok v, r')) :
    decodeListLoop decode (fuel + 1) items r = afterElement decode fuel (items ++ [v]) r' := by
  rw [decodeListLoop, h]
  rfl

theorem decodeListLoop_failed {fuel : Nat} {items : List Json} {r r' : JavaReader} {failed : Json}
    (h : decode r = (.error failed, r')) (hleft : r'.inner ≠ []) :
    decodeListLoop decode (fuel + 1) items r = items ++ [failed, restOfList] := by
  rw [decodeListLoop, h]
  exact if_pos (List.length_pos_iff.mpr hleft)

theorem afterElement_end (fuel : Nat) (items : List Json) (pos : Nat) :
    afterElement decode fuel items ⟨[], pos⟩ = items := by
  unfold afterElement
  split
  · rfl
  · rfl

theorem afterElement_byte {fuel : Nat} {items : List Json} (b : UInt8) (rest : Bytes) (pos : Nat)
    (hitems : items.length ≤ 1000000) :
    afterElement decode fuel items ⟨b :: rest, pos⟩
      = if b = listDelimiter then decodeListLoop decode fuel items ⟨rest, pos + 1⟩ else items := by
  rw [afterElement, if_neg (by omega)]
  rfl

/-- **The loop reads element after element**, up to the limit. -/
theorem keyedList_elements {e : Element} {es : List Element} (hread : AllRead decode (e :: es))
    (fuel : Nat) (items : List Json) (hlimit : items.length + es.length ≤ 1000000)
    (hfuel : es.length < fuel) (rest : Bytes) (pos : Nat) :
    decodeListLoop decode fuel items ⟨delimited e es ++ rest, pos⟩
      = afterElement decode (fuel - (es.length + 1)) (items ++ (e :: es).map (·.2))
          ⟨rest, pos + (delimited e es).length⟩ := by
  induction es generalizing e fuel items pos with
  | nil =>
    obtain ⟨fuel, rfl⟩ : ∃ n, fuel = n + 1 := ⟨fuel - 1, by omega⟩
    exact decodeListLoop_element (hread e List.mem_cons_self rest pos)
  | cons e' es ih =>
    rw [List.length_cons] at hlimit hfuel
    obtain ⟨fuel, rfl⟩ : ∃ n, fuel = n + 1 := ⟨fuel - 1, by omega⟩
    have hfirst := hread e List.mem_cons_self
    have hread' : AllRead decode (e' :: es) := fun x hx => hread x (List.mem_cons_of_mem e hx)
    rw [delimited, List.append_assoc, List.cons_append,
      decodeListLoop_element (hfirst (listDelimiter :: (delimited e' es ++ rest)) pos),
      afterElement_byte _ _ _ (by rw [List.length_append, List.length_singleton]; omega),
      if_pos rfl,
      ih hread' _ _ (by rw [List.length_append, List.length_singleton]; omega) (by omega)]
    have hleft : fuel - (es.length + 1) = fuel + 1 - ((e' :: es).length + 1) := by
      rw [List.length_cons]
      omega
    have hpos : pos + e.1.length + 1 + (delimited e' es).length
        = pos + (e.1 ++ listDelimiter :: delimited e' es).length := by
      rw [List.length_append, List.length_cons]
      omega
    rw [hleft, hpos, List.append_assoc]
    rfl

/-- A whole list. -/
theorem keyedList_delimited {e : Element} {es : List Element} (hread : AllRead decode (e :: es))
    (hlimit : es.length ≤ 1000000) : keyedList decode (delimited e es) = (e :: es).map (·.2) := by
  have hlen := length_le_delimited e es
  have h := keyedList_elements hread ((delimited e es).length + 1) []
    (by rw [List.length_nil]; omega) (by omega) [] 0
  rw [List.append_nil] at h
  rw [keyedList, JavaReader.new, h, afterElement_end, List.nil_append]

/-- A list and what follows it. -/
theorem keyedList_append {e : Element} {es : List Element} (hread : AllRead decode (e :: es))
    (hlimit : es.length ≤ 1000000) (rest : Bytes) :
    ∃ fuel, rest.length ≤ fuel ∧ keyedList decode (delimited e es ++ rest)
      = afterElement decode fuel ((e :: es).map (·.2)) ⟨rest, (delimited e es).length⟩ := by
  have hlen := length_le_delimited e es
  have h := keyedList_elements hread ((delimited e es ++ rest).length + 1) []
    (by rw [List.length_nil]; omega) (by rw [List.length_append]; omega) rest 0
  refine ⟨(delimited e es ++ rest).length + 1 - (es.length + 1), ?_, ?_⟩
  · rw [List.length_append]
    omega
  · rw [keyedList, JavaReader.new, h, List.nil_append, Nat.zero_add]

end Loop

/-! ### Where the loop stops -/

section Stops

/-- Elements that were read and a byte after the last of them that the loop does not tell: one
    that is no delimiter, or any after the limit. -/
inductive CutShort (decode : ReadBytes Json Json) : Bytes → List Json → Prop
  | otherByte {e : Element} {es : List Element} {b : UInt8} (rest : Bytes)
      (hread : AllRead decode (e :: es)) (hlimit : es.length < 1000000) (hb : b ≠ listDelimiter) :
      CutShort decode (delimited e es ++ b :: rest) ((e :: es).map (·.2))
  | limit {e : Element} {es : List Element} (b : UInt8) (rest : Bytes)
      (hread : AllRead decode (e :: es)) (hlimit : es.length = 1000000) :
      CutShort decode (delimited e es ++ b :: rest) ((e :: es).map (·.2))

/-- The loop stops before the bytes are used up, after elements that show as `vs`: an element does
    not decode and leaves bytes, or the list is cut short. -/
inductive StopsEarly (decode : ReadBytes Json Json) : Bytes → List Json → Prop
  | first {bytes : Bytes} {failed : Json} {r : JavaReader}
      (hfail : decode (JavaReader.new bytes) = (.error failed, r)) (hleft : r.inner ≠ []) :
      StopsEarly decode bytes []
  | later {e : Element} {es : List Element} {rest : Bytes} {failed : Json} {r : JavaReader}
      (hread : AllRead decode (e :: es)) (hlimit : es.length < 1000000)
      (hfail : decode ⟨rest, (delimited e es).length + 1⟩ = (.error failed, r))
      (hleft : r.inner ≠ []) :
      StopsEarly decode (delimited e es ++ listDelimiter :: rest) ((e :: es).map (·.2))
  | cut {bytes : Bytes} {vs : List Json} (h : CutShort decode bytes vs) : StopsEarly decode bytes vs

variable {decode : ReadBytes Json Json}

/-- A list that is cut short shows its elements and nothing else. -/
theorem keyedList_cutShort {bytes : Bytes} {vs : List Json} (h : CutShort decode bytes vs) :
    keyedList decode bytes = vs := by
  cases h with
  | otherByte rest hread hlimit hb =>
    obtain ⟨fuel, -, h⟩ := keyedList_append hread (Nat.le_of_lt hlimit) (_ :: rest)
    rw [h, afterElement_byte _ _ _ (by rw [List.length_map, List.length_cons]; omega), if_neg hb]
  | limit b rest hread hlimit =>
    obtain ⟨fuel, -, h⟩ := keyedList_append hread (by omega) (b :: rest)
    rw [h, afterElement, if_pos (by rw [List.length_map, List.length_cons]; omega)]

/-- An element that does not decode and leaves bytes: its marker, then one for the rest. -/
theorem keyedList_stopsEarly {bytes : Bytes} {vs : List Json} (h : StopsEarly decode bytes vs)
    (hcut : ¬ CutShort decode bytes vs) :
    ∃ failed, keyedList decode bytes = vs ++ [failed] ++ [restOfList] := by
  cases h with
  | first hfail hleft => exact ⟨_, decodeListLoop_failed hfail hleft⟩
  | @later e es rest failed r hread hlimit hfail hleft =>
    obtain ⟨fuel, hfuel, h⟩ := keyedList_append hread (Nat.le_of_lt hlimit) (listDelimiter :: rest)
    obtain ⟨fuel, rfl⟩ : ∃ n, fuel = n + 1 := ⟨fuel - 1, by rw [List.length_cons] at hfuel; omega⟩
    refine ⟨failed, ?_⟩
    rw [h, afterElement_byte _ _ _ (by rw [List.length_map, List.length_cons]; omega), if_pos rfl,
      decodeListLoop_failed hfail hleft, List.append_assoc]
    rfl
  | cut h => exact absurd h hcut

end Stops

/-! ### What is shown -/

/-- A keyed list shows all its elements, or ends with a marker after those it decoded. -/
structure ShowsAll (F : FloatText) (proto : Option ProtoContext) (elemType : Text)
    (elemPojo : Option PojoInfo) (bytes : Bytes) : Prop where
  whole : ∀ e es, AllRead (elementDecoder F proto elemType elemPojo) (e :: es) →
    bytes = delimited e es →
      decodeList F proto (JavaReader.new bytes) elemType elemPojo = .array ((e :: es).map (·.2))
  marked : ∀ vs, StopsEarly (elementDecoder F proto elemType elemPojo) bytes vs →
    ∃ more, decodeList F proto (JavaReader.new bytes) elemType elemPojo
      = .array (vs ++ more ++ [restOfList])

/-- **A keyed list shows all its elements or says what it left out**, exactly where it is not cut
    short. -/
theorem keyedList_shows_iff (F : FloatText) (proto : Option ProtoContext) (elemType : Text)
    (elemPojo : Option PojoInfo) (bytes : Bytes) :
    ShowsAll F proto elemType elemPojo bytes
      ↔ ¬ ∃ vs, CutShort (elementDecoder F proto elemType elemPojo) bytes vs := by
  constructor
  · rintro hshows ⟨vs, hcut⟩
    obtain ⟨more, hmore⟩ := hshows.marked vs (.cut hcut)
    rw [decodeList_eq, keyedList_cutShort hcut] at hmore
    have hlen := congrArg List.length (Json.array.inj hmore)
    rw [List.length_append, List.length_append, List.length_singleton] at hlen
    omega
  · intro hnot
    refine ⟨?_, ?_⟩
    · rintro e es hread rfl
      rcases Nat.lt_or_ge 1000000 es.length with hlong | hlimit
      · -- the elements past the limit are what the list is cut short by
        exfalso
        apply hnot
        have hsplit := (List.take_append_drop 1000000 es).symm
        obtain ⟨e', es', hdrop⟩ := List.exists_cons_of_ne_nil
          (show es.drop 1000000 ≠ [] from fun h => by
            have := List.drop_eq_nil_iff.mp h
            omega)
        rw [hdrop] at hsplit
        have hbytes : delimited e es
            = delimited e (es.take 1000000) ++ listDelimiter :: delimited e' es' := by
          rw [← delimited_append, ← hsplit]
        refine ⟨(e :: es.take 1000000).map (·.2), ?_⟩
        rw [hbytes]
        refine .limit _ _ (fun x hx => hread x ?_) (by rw [List.length_take]; omega)
        rcases List.mem_cons.mp hx with rfl | hx
        · exact List.mem_cons_self
        · exact List.mem_cons_of_mem e (List.mem_of_mem_take hx)
      · rw [decodeList_eq, keyedList_delimited hread hlimit]
    · intro vs hstops
      obtain ⟨failed, h⟩ := keyedList_stopsEarly hstops fun hcut => hnot ⟨vs, hcut⟩
      exact ⟨[failed], by rw [decodeList_eq, h]⟩

/-- **What Flink writes is shown whole**, up to the limit: the values of any serializer whose
    name is enough to decode them. -/
theorem keyedList_encode (F : FloatText) (proto : Option ProtoContext) {s : Ser} {t : Text}
    (hs : s.isNamed proto t none = true) (v : s.Val) (vs : List s.Val)
    (hv : ∀ w ∈ v :: vs, s.WithinLimits w) (hlimit : vs.length ≤ 1000000) :
    decodeList F proto
        (JavaReader.new (delimited (s.encode v, s.render F proto v)
          (vs.map fun w => (s.encode w, s.render F proto w)))) t none
      = .array ((v :: vs).map (s.render F proto)) := by
  have hread : AllRead (elementDecoder F proto t none)
      ((s.encode v, s.render F proto v) :: vs.map fun w => (s.encode w, s.render F proto w)) := by
    intro x hx
    rw [← List.map_cons (f := fun w => (s.encode w, s.render F proto w))] at hx
    obtain ⟨w, hw, rfl⟩ := List.mem_map.mp hx
    exact reads_decodeField s t none hs w (hv w hw)
  rw [decodeList_eq, keyedList_delimited hread (by rw [List.length_map]; exact hlimit)]
  simp

/-- Two `Int`s with a `;` between them show as a list of the first. -/
theorem keyedList_cut_silently :
    ¬ ShowsAll ⟨fun _ => none, fun _ => none⟩ none "Int".toList none
        (writeInt 1 ++ 0x3b :: writeInt 2)
      ∧ decodeList ⟨fun _ => none, fun _ => none⟩ none
          (JavaReader.new (writeInt 1 ++ 0x3b :: writeInt 2)) "Int".toList none
          = .array [.number (.int 1)] := by
  have hread (v : Int32) :
      Reads (elementDecoder ⟨fun _ => none, fun _ => none⟩ none "Int".toList none) (writeInt v)
        (.number (.int v.toInt)) :=
    reads_decodeField (.scalar .int) _ none (Ser.isNamed_typeName none (.scalar .int) rfl) v trivial
  have hcut : CutShort
      (elementDecoder ⟨fun _ => none, fun _ => none⟩ none "Int".toList none)
      (writeInt 1 ++ 0x3b :: writeInt 2) [.number (.int 1)] := by
    have hone : AllRead (elementDecoder ⟨fun _ => none, fun _ => none⟩ none "Int".toList none)
        [(writeInt 1, .number (.int 1))] := by
      intro x hx
      rw [List.mem_singleton.mp hx]
      exact hread 1
    exact .otherByte (writeInt 2) hone (by decide) (by decide)
  refine ⟨?_, by rw [decodeList_eq, keyedList_cutShort hcut]⟩
  intro hshows
  obtain ⟨more, hmore⟩ := hshows.marked _ (.cut hcut)
  rw [decodeList_eq, keyedList_cutShort hcut] at hmore
  have hlen := congrArg List.length (Json.array.inj hmore)
  rw [List.length_append, List.length_append, List.length_singleton, List.length_singleton] at hlen
  omega

end FlinkExplorer
