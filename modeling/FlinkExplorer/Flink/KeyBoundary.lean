import FlinkExplorer.Flink.BlockKeys
import FlinkExplorer.Flink.MapKeys
import FlinkExplorer.Lib.Parts

namespace FlinkExplorer

open Lib Lib.Read

/-!
# Where a key ends

Nothing in an entry says where its key ends.  A key that decodes ends where its decoder stops; any
other is all that stands before a namespace of the width the layout gives, and before a map key: the
shortest end of the bytes that is one.

* `StoredKey` — the keys that Flink writes, decodable or not, with their texts;
* `opaqueKeyEnd_eq_iff` — the end found in front of a map key is the true one exactly when no shorter
  end of the map key's bytes is a map key;
* `storedKey_apart` — two keys of one text are one, unless both decode;
* `splitKey_exact_iff` — when an entry is split where its key ends.
-/

section Written

variable (F : FloatText) (ctx : KeyGroupParse)

/-- The bytes of a key of the header's key type, and the text of the key: that of `KeyBytes` for a key
    within the decoder's limits, the hex of its bytes for one beyond them, or of a type that is not
    decoded at all. -/
inductive StoredKey : Bytes → Text → Prop
  | decoded {key : Bytes} {text : Text} (h : KeyBytes F ctx key text) : StoredKey key text
  | beyond (s : Ser) (hinj : keyRendersInjectively ctx.keyType = true)
    (hs : s.isKeyOf ctx.keyType = true) (v : s.Val) (hv : ¬ s.WithinLimits v) :
    StoredKey (s.encode v) ('0' :: 'x' :: (s.encode v).flatMap hexByte)
  | pojoBeyond (className : Text) (fields : List SerField) (info : PojoInfo)
    (htype : ctx.keyType = "Pojo".toList) (hinfo : ctx.keyPojo = some info)
    (hfields : fieldsAreNamed none fields info.fields = true)
    (hj : (Ser.pojo className fields).isJava = true)
    (v : (Ser.pojo className fields).Val) (hv : ¬ (Ser.pojo className fields).WithinLimits v) :
    StoredKey ((Ser.pojo className fields).encode v)
      ('0' :: 'x' :: ((Ser.pojo className fields).encode v).flatMap hexByte)
  | unknown (key : Bytes) (hinj : keyRendersInjectively ctx.keyType = false)
    (hpojo : ctx.keyType = "Pojo".toList → ctx.keyPojo = none) :
    StoredKey key ('0' :: 'x' :: key.flatMap hexByte)

/-- The bytes of a map key of a type, behind the namespace: none in the entries of other states. -/
def IsMapKey (mapKeyType : Option Text) (mapKey : Bytes) : Prop :=
  match mapKeyType with
  | none => mapKey = []
  | some mk => mapKey ≠ [] ∧ ∃ (s : Ser) (v : s.Val), s.isNamed none mk none = true
    ∧ s.isJava = true ∧ mapKey = s.encode v

/-- **A map key that no shorter end of its bytes is mistaken for**: it decodes, and none of its ends,
    where a namespace of one byte asks for a zero in front of it, decodes as a map key. -/
structure MapKeyAlone (n : Nat) (mapKeyType : Text) (mapKey : Bytes) : Prop where
  whole : decodedLen F mapKey mapKeyType = some mapKey.length
  alone : ∀ j, 0 < j → j < mapKey.length → (n = 1 → mapKey[j - 1]? = some 0) →
    decodedLen F (mapKey.drop j) mapKeyType ≠ some (mapKey.length - j)

end Written

/-! ### Keys that do not decode -/

section Opaque

variable {F : FloatText} {ctx : KeyGroupParse} {key : Bytes} {text : Text}

/-- A key decodes to its text whatever follows it, or does not decode whatever follows it. -/
theorem StoredKey.cases (h : StoredKey F ctx key text) :
    KeyBytes F ctx key text ∨
      text = opaqueKey key ∧ ∀ rest, decodeKey F (key ++ rest) ctx.keyType ctx.keyPojo = none := by
  cases h with
  | decoded h => exact .inl h
  | beyond s hinj hs v hv =>
    refine .inr ⟨rfl, fun rest => ?_⟩
    by_contra hsome
    obtain ⟨⟨t, n⟩, hdecode⟩ := Option.ne_none_iff_exists'.mp hsome
    exact hv (keyText_of_decodeKey hinj hs hdecode).1
  | pojoBeyond className fields info htype hinfo hfields hj v hv =>
    refine .inr ⟨rfl, fun rest => ?_⟩
    by_contra hsome
    obtain ⟨found, hdecode⟩ := Option.ne_none_iff_exists'.mp hsome
    rw [htype, hinfo] at hdecode
    exact hv (text_of_decodeKey hfields hj hdecode).1
  | unknown _ hinj hpojo =>
    refine .inr ⟨rfl, fun rest => ?_⟩
    unfold decodeKey
    split
    · rename_i htype
      rw [hpojo htype]
    · rw [hinj]
      rfl

/-- **The end found in front of a map key is the true one** exactly when no shorter end of the bytes is
    a map key. -/
theorem opaqueKeyEnd_eq_iff {ns mapKey : Bytes} {n : Nat} {mk : Text} (hns : ns.length = n)
    (hvoid : n = 1 → ns = [0]) (hne : mapKey ≠ []) :
    opaqueKeyEnd F (key ++ (ns ++ mapKey)) (some n) (some mk) = key.length
      ↔ MapKeyAlone F n mk mapKey := by
  have hpos : 0 < mapKey.length := List.length_pos_of_ne_nil hne
  have hlength : (key ++ (ns ++ mapKey)).length = key.length + n + mapKey.length := by
    rw [List.length_append, List.length_append, hns]
    omega
  have hdrop (j : Nat) : (key ++ (ns ++ mapKey)).drop (key.length + n + j) = mapKey.drop j := by
    rw [← List.append_assoc, ← List.drop_drop,
      List.drop_left' (by rw [List.length_append, hns])]
  -- a map key starts after the namespace, or at a later byte of the map key itself
  have hstart (j : Nat) : ((n != 1 || (key ++ (ns ++ mapKey))[key.length + n + j - n]? == some 0)
        && decodedLen F ((key ++ (ns ++ mapKey)).drop (key.length + n + j)) mk
          == some ((key ++ (ns ++ mapKey)).length - (key.length + n + j))) = true
      ↔ (n = 1 → (ns ++ mapKey)[j]? = some 0)
        ∧ decodedLen F (mapKey.drop j) mk = some (mapKey.length - j) := by
    have hbyte : (key ++ (ns ++ mapKey))[key.length + n + j - n]? = (ns ++ mapKey)[j]? := by
      rw [show key.length + n + j - n = key.length + j by omega, List.getElem?_append_right (by omega)]
      congr 1
      omega
    rw [hdrop, hbyte, hlength, show key.length + n + mapKey.length - (key.length + n + j)
      = mapKey.length - j by omega]
    by_cases hone : n = 1 <;> simp [hone]
  have hend : opaqueKeyEnd F (key ++ (ns ++ mapKey)) (some n) (some mk) = key.length
      ↔ (List.range' n ((key ++ (ns ++ mapKey)).length - n)).reverse.find? (fun uk =>
        (n != 1 || (key ++ (ns ++ mapKey))[uk - n]? == some 0)
          && decodedLen F ((key ++ (ns ++ mapKey)).drop uk) mk
            == some ((key ++ (ns ++ mapKey)).length - uk)) = some (key.length + n) := by
    unfold opaqueKeyEnd
    dsimp only
    rcases hfind : (List.range' n ((key ++ (ns ++ mapKey)).length - n)).reverse.find? (fun uk =>
        (n != 1 || (key ++ (ns ++ mapKey))[uk - n]? == some 0)
          && decodedLen F ((key ++ (ns ++ mapKey)).drop uk) mk
            == some ((key ++ (ns ++ mapKey)).length - uk)) with - | u
    · rw [Option.map_none, Option.getD_none, hlength]
      constructor
      · intro h
        omega
      · nofun
    · have hlo := (find?_down.mp hfind).1.1
      rw [Option.map_some, Option.getD_some, Option.some.injEq]
      omega
  rw [hend, find?_down]
  constructor
  · rintro ⟨-, htrue, hlast⟩
    have hwhole := ((hstart 0).mp htrue).2
    refine ⟨hwhole, fun j hj hlt hzero hdecoded => ?_⟩
    have hfalse := hlast (key.length + n + j) (by omega) (by omega)
    refine absurd ((hstart j).mpr ⟨fun hone => ?_, hdecoded⟩) (by rw [hfalse]; decide)
    rw [hvoid hone, List.singleton_append, ← Nat.succ_pred_eq_of_pos hj, List.getElem?_cons_succ]
    exact hzero hone
  · rintro ⟨hwhole, halone⟩
    refine ⟨⟨by omega, by omega⟩, (hstart 0).mpr ⟨fun hone => ?_, hwhole⟩, fun u hu hbound => ?_⟩
    · rw [hvoid hone]
      rfl
    · obtain ⟨j, rfl⟩ : ∃ j, u = key.length + n + j := ⟨u - (key.length + n), by omega⟩
      rw [Bool.eq_false_iff]
      intro htrue
      obtain ⟨hzero, hdecoded⟩ := (hstart j).mp htrue
      refine halone j (by omega) (by omega) (fun hone => ?_) hdecoded
      have hbyte := hzero hone
      rw [hvoid hone, List.singleton_append, ← Nat.succ_pred_eq_of_pos (show 0 < j by omega),
        List.getElem?_cons_succ] at hbyte
      exact hbyte

end Opaque

/-! ### Keys of one text -/

section Apart

variable {F : FloatText} {ctx : KeyGroupParse}

/-- The hex of a key's bytes is no number. -/
theorem javaBigDecimal_opaqueKey (bytes : Bytes) : javaBigDecimal (opaqueKey bytes) = none := by
  have hdigits (t : Text) : javaDigits ('0' :: 'x' :: t) = none := if_neg (by simp)
  have hsign (t : Text) : javaSign ('0' :: 'x' :: t) = (1, '0' :: 'x' :: t) := rfl
  have hkeeps (t : Text) : ('0' :: 'x' :: t).takeWhile (!isExponentIndicator ·)
      = '0' :: 'x' :: t.takeWhile (!isExponentIndicator ·) := rfl
  have hwhole (t : Text) : ('0' :: 'x' :: t).takeWhile (· != '.')
      = '0' :: 'x' :: t.takeWhile (· != '.') := rfl
  unfold javaBigDecimal javaSignificand opaqueKey
  rw [hsign]
  dsimp only
  rw [hkeeps, hwhole, List.cons_append, List.cons_append, hdigits]
  rfl

/-- A big number, or a tuple, is not shown by the hex of other bytes. -/
theorem Ser.encode_of_keyText (hF : F.Faithful) {s : Ser}
    (hs : s = .scalar .bigInteger ∨ s = .scalar .bigDecimal ∨ ∃ fields, s = .tuple fields)
    {v : s.Val} {bytes : Bytes} (h : s.keyText F v = opaqueKey bytes) : s.encode v = bytes := by
  unfold Ser.keyText at h
  rcases hrender : renderKey (s.keyRender F v) with - | text
  · rw [hrender] at h
    exact opaqueKey_inj h
  · rw [hrender] at h
    obtain rfl : text = opaqueKey bytes := h
    rcases hs with rfl | rfl | ⟨fields, rfl⟩
    · match v with
      | (none : Option JavaBigInteger) => cases hrender
      | (some v : Option JavaBigInteger) =>
        have htext : intText v.value = opaqueKey bytes := Option.some.inj hrender
        have hx : 'x' ∈ intText v.value := by
          rw [htext]
          exact List.mem_cons_of_mem _ List.mem_cons_self
        exact absurd (isNumberChar_of_mem_intText hx) (by decide)
    · match v with
      | (none : Option JavaBigDecimal) => cases hrender
      | (some v : Option JavaBigDecimal) =>
        have htext : bigDecimalToString (intText v.unscaled.value) v.scale.toInt = opaqueKey bytes :=
          Option.some.inj hrender
        have hread := javaBigDecimal_toString v.unscaled.value v.scale.toInt
        rw [htext, javaBigDecimal_opaqueKey] at hread
        cases hread
    · exact absurd hrender (Ser.renderKey_ne_opaque hF (.inr (.inr ⟨fields, rfl⟩)) _)

/-- Only the keys of big numbers and tuples can be beyond the limits. -/
theorem Ser.kind_of_beyond {s s' : Ser} {t : Text} (hs : s.isKeyOf t = true)
    (hs' : s'.isKeyOf t = true) {v' : s'.Val} (hv' : ¬ s'.WithinLimits v') :
    s = .scalar .bigInteger ∨ s = .scalar .bigDecimal ∨ ∃ fields, s = .tuple fields := by
  match s with
  | .tuple fields => exact .inr (.inr ⟨fields, rfl⟩)
  | .scalar b =>
    rw [Ser.isKeyOf, Bool.and_eq_true, beq_iff_eq] at hs
    obtain ⟨-, rfl⟩ := hs
    match s' with
    | .tuple fields =>
      rw [Ser.isKeyOf, not_tuple_of_scalar] at hs'
      cases hs'
    | .scalar a =>
      rw [Ser.isKeyOf, Bool.and_eq_true, beq_iff_eq] at hs'
      cases a with
      | bigInteger => exact .inl (by cases b <;> first | rfl | exact absurd hs'.2 (by decide))
      | bigDecimal => exact .inr (.inl (by cases b <;> first | rfl | exact absurd hs'.2 (by decide)))
      | string | long | int | short | byte | char | boolean | float | double | date | localDate =>
        exact absurd trivial hv'
      | byteArray | localDateTime | localTime | instant | timestamp | enumOrdinal | intArray
      | longArray | doubleArray | floatArray | shortArray | booleanArray | charArray =>
        exact absurd hs'.1 (by decide)

/-- A POJO is not shown by the hex of bytes. -/
theorem pojoText_ne_opaqueKey {className : Text} {fields : List SerField}
    (v : (Ser.pojo className fields).Val) (bytes : Bytes) :
    valueToDisplay ((Ser.pojo className fields).reference F none v) ≠ opaqueKey bytes := by
  rw [← Ser.render_eq_reference]
  match v with
  | (none : Option (PojoVal fields)) => exact fun h => absurd (List.cons.inj h).1 (by decide)
  | (some vs : Option (PojoVal fields)) =>
    show valueToDisplay (renderPojo F none fields ⟨[], none, none⟩ vs) ≠ _
    rw [renderPojo_none, valueToDisplay]
    exact fun h => absurd (List.cons.inj h).1 (by decide)

/-- A key that decodes is not shown by the hex of another that does not. -/
theorem eq_of_hex (hF : F.Faithful) {key other : Bytes} (h : KeyBytes F ctx key (opaqueKey other))
    (hother : StoredKey F ctx other (opaqueKey other))
    (hundecoded : ¬ KeyBytes F ctx other (opaqueKey other)) :
    key = other := by
  generalize htext : opaqueKey other = text at h
  cases h with
  | plain s hinj hs v hv =>
    generalize hothers : opaqueKey other = text' at hother hundecoded
    cases hother with
    | decoded h => exact absurd h hundecoded
    | beyond s' _ hs' v' hv' =>
      exact Ser.encode_of_keyText hF (Ser.kind_of_beyond hs hs' hv') htext.symm
    | pojoBeyond className fields info htype =>
      rw [htype] at hinj
      exact absurd hinj (by decide)
    | unknown _ hnot =>
      rw [hinj] at hnot
      cases hnot
  | pojo className fields info htype hinfo hfields v hv =>
    exact absurd htext.symm (pojoText_ne_opaqueKey v other)

/-- **Two keys of one text are one**, unless both decode. -/
theorem storedKey_apart (hF : F.Faithful) {key other : Bytes} {text : Text}
    (h : StoredKey F ctx key text) (hother : StoredKey F ctx other text) :
    (KeyBytes F ctx key text ∧ KeyBytes F ctx other text) ∨ key = other := by
  by_cases hkey : KeyBytes F ctx key text
  · by_cases hboth : KeyBytes F ctx other text
    · exact .inl ⟨hkey, hboth⟩
    · rcases hother.cases with hdecoded | ⟨rfl, -⟩
      · exact absurd hdecoded hboth
      · exact .inr (eq_of_hex hF hkey hother hboth)
  · rcases h.cases with hdecoded | ⟨rfl, -⟩
    · exact absurd hdecoded hkey
    · rcases hother.cases with hdecoded | ⟨hhex, -⟩
      · exact .inr (eq_of_hex hF hdecoded h hkey).symm
      · exact .inr (opaqueKey_inj hhex)

end Apart

/-! ### Splitting -/

section Split

variable {F : FloatText} {ctx : KeyGroupParse}

/-- What follows a key of an entry fits its layout, whether or not its map key decodes. -/
theorem tailFits_of_isMapKey {n : Nat} {mapKeyType : Option Text} {ns mapKey : Bytes}
    (hns : ns.length = n) (hvoid : n = 1 → ns = [0]) (hmap : IsMapKey mapKeyType mapKey) :
    tailFits F (ns ++ mapKey) (some n) mapKeyType = true := by
  cases mapKeyType with
  | none =>
    obtain rfl : mapKey = [] := hmap
    rw [List.append_nil]
    exact beq_iff_eq.mpr hns
  | some mk =>
    obtain ⟨hne, s, v, hs, hj, rfl⟩ := hmap
    have hpos : 0 < (s.encode v).length := List.length_pos_of_ne_nil hne
    have hlength : (ns ++ s.encode v).length = n + (s.encode v).length := by
      rw [List.length_append, hns]
    have hdecoded : (decodedLen F (s.encode v) mk).all (· == (s.encode v).length) = true := by
      by_cases hv : s.WithinLimits v
      · rw [decodedLen_mapKey ⟨hne, s, v, hs, hv, rfl⟩]
        exact beq_self_eq_true _
      · obtain ⟨failed, hfailed⟩ := decodeField_beyond (F := F) hs hj hv
        unfold decodedLen
        rcases hread : decodeField F none mk none (JavaReader.new (s.encode v)) with ⟨e | j, r⟩
        · rfl
        · rw [hread] at hfailed
          cases hfailed
    unfold tailFits
    dsimp only
    rw [List.drop_left' hns, hlength, Nat.add_sub_cancel_left, hdecoded, Bool.and_true,
      Bool.and_eq_true, decide_eq_true_eq]
    refine ⟨by omega, ?_⟩
    by_cases hone : n = 1
    · rw [hvoid hone]
      simp
    · simp [hone]

/-- An entry is split where its key ends exactly when the key decodes, or the entry is no map's, or no
    shorter end of the map key is mistaken for it. -/
theorem splitKey_eq_iff {key : Bytes} {text : Text} (hkey : StoredKey F ctx key text) {n : Nat}
    {mapKeyType : Option Text} {ns mapKey : Bytes} (hns : ns.length = n)
    (hvoid : n = 1 → ns = [0]) (hmap : IsMapKey mapKeyType mapKey) :
    splitKey F (key ++ (ns ++ mapKey)) ctx.keyType ctx.keyPojo (some n) mapKeyType
        = (text, key.length)
      ↔ KeyBytes F ctx key text ∨ ∀ mk ∈ mapKeyType, MapKeyAlone F n mk mapKey := by
  rcases hkey.cases with hdecoded | ⟨rfl, hundecoded⟩
  · refine iff_of_true ?_ (.inl hdecoded)
    exact splitKey_of_decodeKey (decodeKey_of_keyBytes hdecoded (ns ++ mapKey))
      (tailFits_of_isMapKey hns hvoid hmap)
  · have hsplit : splitKey F (key ++ (ns ++ mapKey)) ctx.keyType ctx.keyPojo (some n) mapKeyType
        = (opaqueKey ((key ++ (ns ++ mapKey)).take
            (opaqueKeyEnd F (key ++ (ns ++ mapKey)) (some n) mapKeyType)),
          opaqueKeyEnd F (key ++ (ns ++ mapKey)) (some n) mapKeyType) := by
      unfold splitKey
      rw [hundecoded]
      rfl
    have hnot : ¬ KeyBytes F ctx key (opaqueKey key) := by
      intro h
      have hnone := hundecoded []
      rw [decodeKey_of_keyBytes h] at hnone
      cases hnone
    -- the text is that of the bytes in front, so the end decides
    have hends : (opaqueKey ((key ++ (ns ++ mapKey)).take
          (opaqueKeyEnd F (key ++ (ns ++ mapKey)) (some n) mapKeyType)) = opaqueKey key
        ∧ opaqueKeyEnd F (key ++ (ns ++ mapKey)) (some n) mapKeyType = key.length)
        ↔ opaqueKeyEnd F (key ++ (ns ++ mapKey)) (some n) mapKeyType = key.length := by
      refine ⟨And.right, fun hend => ⟨?_, hend⟩⟩
      rw [hend, List.take_left]
    rw [hsplit, Prod.mk.injEq, hends, or_iff_right hnot]
    cases mapKeyType with
    | none =>
      obtain rfl : mapKey = [] := hmap
      refine iff_of_true ?_ nofun
      show (key ++ (ns ++ [])).length - n = key.length
      rw [List.append_nil, List.length_append, hns]
      omega
    | some mk =>
      rw [opaqueKeyEnd_eq_iff hns hvoid hmap.1]
      simp

/-- **Keys are split from what follows them, and kept apart**: an entry is split where its key ends
    exactly when the key decodes, or the entry is no map's, or no shorter end of the map key is mistaken
    for it; and two keys of one text are one, unless both decode. -/
theorem splitKey_exact_iff (hF : F.Faithful) (ctx : KeyGroupParse) :
    (∀ {key : Bytes} {text : Text}, StoredKey F ctx key text →
      ∀ {n : Nat} {mapKeyType : Option Text} {ns mapKey : Bytes}, ns.length = n →
        (n = 1 → ns = [0]) → IsMapKey mapKeyType mapKey →
        (splitKey F (key ++ (ns ++ mapKey)) ctx.keyType ctx.keyPojo (some n) mapKeyType
            = (text, key.length)
          ↔ KeyBytes F ctx key text ∨ ∀ mk ∈ mapKeyType, MapKeyAlone F n mk mapKey))
    ∧ ∀ {key other : Bytes} {text : Text}, StoredKey F ctx key text →
        StoredKey F ctx other text →
        (KeyBytes F ctx key text ∧ KeyBytes F ctx other text) ∨ key = other :=
  ⟨fun hkey _ _ _ _ hns hvoid hmap => splitKey_eq_iff hkey hns hvoid hmap,
    fun h hother => storedKey_apart hF h hother⟩

end Split

/-! ### Keys of an unknown class -/

/-- A state whose keys are of a class that is not decoded. -/
def unknownParse : KeyGroupParse where
  numStates := 1
  keyType := "Order".toList
  kgPrefixLen := 1
  keyPojo := none
  stateTypes := ["MAP".toList]
  layouts := [⟨some 1, some "String".toList⟩]
  onlyState := none

theorem storedKey_unknown (key : Bytes) :
    StoredKey bitsText unknownParse key ('0' :: 'x' :: key.flatMap hexByte) :=
  .unknown key (by decide) (fun h => absurd h (by decide))

/-- A map key of one letter, and one of two NUL characters. -/
theorem isMapKey_letter : IsMapKey (some "String".toList) [2, 97] :=
  ⟨List.cons_ne_nil _ _, .scalar .string, some ⟨[97], by decide⟩, Ser.isNamed_scalar none .string, rfl,
    by decide⟩

theorem isMapKey_nuls : IsMapKey (some "String".toList) [3, 0, 0] :=
  ⟨List.cons_ne_nil _ _, .scalar .string, some ⟨[0, 0], by decide⟩, Ser.isNamed_scalar none .string, rfl,
    by decide⟩

/-- The key 7 of an unknown class in front of a map key of one letter. -/
theorem splitKey_exact_letter :
    splitKey bitsText [7, 0, 2, 97] "Order".toList none (some 1) (some "String".toList)
        = ("0x07".toList, 1)
      ↔ KeyBytes bitsText unknownParse [7] "0x07".toList
        ∨ ∀ mk ∈ some "String".toList, MapKeyAlone bitsText 1 mk [2, 97] :=
  (splitKey_exact_iff bitsText_faithful unknownParse).1 (storedKey_unknown [7]) rfl (fun _ => rfl)
    isMapKey_letter

/-- Behind the key 7 of an unknown class the map key of two NULs is cut: its last byte, after a zero, is
    a null string. -/
theorem not_splitKey_nuls :
    StoredKey bitsText unknownParse [7] "0x07".toList
      ∧ IsMapKey (some "String".toList) [3, 0, 0]
      ∧ splitKey bitsText [7, 0, 3, 0, 0] "Order".toList none (some 1) (some "String".toList)
        = ("0x070003".toList, 3)
      ∧ splitKey bitsText [7, 0, 3, 0, 0] "Order".toList none (some 1) (some "String".toList)
        ≠ ("0x07".toList, 1) := by
  have hsplit : splitKey bitsText [7, 0, 3, 0, 0] "Order".toList none (some 1)
      (some "String".toList) = ("0x070003".toList, 3) := by decide +kernel
  refine ⟨storedKey_unknown [7], isMapKey_nuls, hsplit, ?_⟩
  rw [hsplit]
  decide

end FlinkExplorer
