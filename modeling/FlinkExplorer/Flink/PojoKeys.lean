import FlinkExplorer.Flink.KeyInjective
import FlinkExplorer.Flink.PojoText
import FlinkExplorer.Reader.Block

namespace FlinkExplorer

open Lib Lib.Read

/-!
# When POJO keys are told apart

A POJO key is shown by `valueToDisplay` of what it decodes to, and `groupBlock` groups by that
text.  So two keys share a text, and a record, as soon as two values of one field look alike, and
the keys of a layout are told apart exactly when no field has such values
(`tellsKeysApart_iff`).
-/

section Text

variable {F : FloatText} {info : PojoInfo} {className : Text} {fields : List SerField}

theorem isNamed_pojo (hs : fieldsAreNamed none fields info.fields = true) :
    (Ser.pojo className fields).isNamed none "Pojo".toList (some info) = true := by
  have hcontainer : isContainer "Pojo".toList = false := by decide
  rw [Ser.isNamed, Option.any_some, hs, hcontainer]
  rfl

theorem decodeKey_pojo (bytes : Bytes) :
    decodeKey F bytes "Pojo".toList (some info)
      = match decodeField F none "Pojo".toList (some info) (JavaReader.new bytes) with
        | (.ok v, r) => some (valueToDisplay v, r.pos)
        | (.error _, _) => none := by
  have hcontainer : isContainer "Pojo".toList = false := by decide
  rw [decodeField_pojo F none hcontainer]
  exact if_pos rfl

/-- A POJO key within the size limits is shown as it looks. -/
theorem decodeKey_encode_pojo (hs : fieldsAreNamed none fields info.fields = true)
    {v : (Ser.pojo className fields).Val} (hv : (Ser.pojo className fields).WithinLimits v)
    (rest : Bytes) :
    decodeKey F ((Ser.pojo className fields).encode v ++ rest) "Pojo".toList (some info)
      = some (valueToDisplay ((Ser.pojo className fields).render F none v),
        ((Ser.pojo className fields).encode v).length) := by
  have hread := reads_decodeField (F := F) (.pojo className fields) _ _ (isNamed_pojo hs) v hv rest 0
  rw [decodeKey_pojo, JavaReader.new, hread]
  simp only [Nat.zero_add]

/-- A POJO key that decodes is within the size limits, and is shown as it looks. -/
theorem text_of_decodeKey (hs : fieldsAreNamed none fields info.fields = true)
    (hj : (Ser.pojo className fields).isJava = true) {v : (Ser.pojo className fields).Val}
    {rest : Bytes} {key : Text × Nat}
    (h : decodeKey F ((Ser.pojo className fields).encode v ++ rest) "Pojo".toList (some info)
      = some key) :
    (Ser.pojo className fields).WithinLimits v ∧
      key = (valueToDisplay ((Ser.pojo className fields).render F none v),
        ((Ser.pojo className fields).encode v).length) := by
  rw [decodeKey_pojo] at h
  rcases hread : decodeField F none "Pojo".toList (some info)
      (JavaReader.new ((Ser.pojo className fields).encode v ++ rest)) with ⟨j | j, r⟩
  · rw [hread] at h
    cases h
  · have hlimit := withinLimits_of_decodeField _ _ _ (isNamed_pojo hs) hj v rest 0 j r hread
    rw [← decodeKey_pojo, decodeKey_encode_pojo hs hlimit] at h
    exact ⟨hlimit, (Option.some.inj h).symm⟩

/-- The keys of an exact layout have texts of their own. -/
theorem text_inj (hj : (Ser.pojo className fields).isJava = true)
    (hx : fieldsAreExact fields = true) {v w : (Ser.pojo className fields).Val}
    (hv : (Ser.pojo className fields).WithinLimits v)
    (hw : (Ser.pojo className fields).WithinLimits w)
    (h : valueToDisplay ((Ser.pojo className fields).render F none v)
      = valueToDisplay ((Ser.pojo className fields).render F none w)) :
    (Ser.pojo className fields).Same v w := by
  have hexact : (Ser.pojo className fields).isExact = true := hx
  have hrender := valueToDisplay_inj _ _ (Ser.isClear_render _ hexact hj v hv)
    (Ser.isClear_render _ hexact hj w hw) [] [] nofun nofun (congrArg (· ++ []) h)
  exact Ser.render_inj _ hexact hj v w hv hw hrender.1

end Text

/-! ### Keys in a block -/

section Block

variable (F : FloatText) (ctx : KeyGroupParse)

/-- How many bytes stand before the key of a state's entry: the key-group, and for a timer its
    timestamp. -/
def keyOffset (stateId : UInt16) : Nat :=
  if ctx.stateTypes[stateId.toNat]? = some "TIMER".toList then ctx.kgPrefixLen + 8
  else ctx.kgPrefixLen

/-- The type of the map key that follows the namespace in a state's entry. -/
def mapKeyTypeOf (stateId : UInt16) : Option Text :=
  if ctx.stateTypes[stateId.toNat]? = some "TIMER".toList then none
  else (ctx.layouts[stateId.toNat]?).bind (·.mapKeyType)

/-- Whether an entry holds a key: the key's bytes stand where a key does, and what follows them is
    what the state's layout says. -/
def Frame.Holds (stateId : UInt16) (f : Frame) (key : Bytes) : Prop :=
  ∃ before after, f.keyBytes = before ++ key ++ after ∧ before.length = keyOffset ctx stateId ∧
    tailFits F after ((ctx.layouts[stateId.toNat]?).bind (·.namespaceLen))
      (mapKeyTypeOf ctx stateId) = true

/-- The entries that `groupBlock` gathers in the record of a text. -/
def entriesOf (block : Bytes) (keyGroup : UInt16) (text : Text) : List KeyedEntry :=
  (parseKeyGroupBlock ctx F block keyGroup).1.filter fun e => e.key = text

variable {F ctx}

theorem splitKey_of_decodeKey {key after : Bytes} {keyType : Text} {keyPojo : Option PojoInfo}
    {namespaceLen : Option Nat} {mapKeyType : Option Text} {txt : Text}
    (h : decodeKey F (key ++ after) keyType keyPojo = some (txt, key.length))
    (hfits : tailFits F after namespaceLen mapKeyType = true) :
    splitKey F (key ++ after) keyType keyPojo namespaceLen mapKeyType = (txt, key.length) := by
  have hkept : (decide (key.length ≤ (key ++ after).length)
      && tailFits F ((key ++ after).drop key.length) namespaceLen mapKeyType) = true := by
    rw [List.drop_left, hfits, Bool.and_true, decide_eq_true_eq, List.length_append]
    exact Nat.le_add_right _ _
  rw [splitKey, h, Option.filter_some, if_pos hkept]
  rfl

/-- The key of an entry that holds a key that decodes. -/
theorem key_frameEntry {stateId : UInt16} {f : Frame} {key : Bytes} (hkey : key ≠ [])
    (hf : f.Holds F ctx stateId key) {txt : Text}
    (h : ∀ after, decodeKey F (key ++ after) ctx.keyType ctx.keyPojo = some (txt, key.length))
    (keyGroup : UInt16) : (frameEntry ctx F keyGroup stateId f).key = txt := by
  obtain ⟨before, after, hbytes, hbefore, hfits⟩ := hf
  have hpos : 0 < key.length := List.length_pos_of_ne_nil hkey
  have hlen : f.keyBytes.length = before.length + key.length + after.length := by
    rw [hbytes, List.length_append, List.length_append]
  have hpayload : f.keyBytes.drop before.length = key ++ after := by
    rw [hbytes, List.append_assoc, List.drop_left]
  by_cases htimer : ctx.stateTypes[stateId.toNat]? = some "TIMER".toList
  · rw [keyOffset, if_pos htimer] at hbefore
    rw [mapKeyTypeOf, if_pos htimer] at hfits
    rw [frameEntry, if_pos htimer, readTimerKey, if_neg (by omega), ← hbefore, hpayload]
    exact congrArg Prod.fst (splitKey_of_decodeKey (h after) hfits)
  · rw [keyOffset, if_neg htimer] at hbefore
    rw [mapKeyTypeOf, if_neg htimer] at hfits
    rw [frameEntry, if_neg htimer, readKeyFromBytes, if_neg (by omega), ← hbefore, hpayload]
    exact congrArg Prod.fst (splitKey_of_decodeKey (h after) hfits)

end Block

/-! ### When keys are told apart -/

section Main

/-- Whether the keys of a POJO layout are told apart: two different ones that decode have
    different texts, and in no block do two entries that hold them go into one record. -/
def TellsKeysApart (F : FloatText) (info : PojoInfo) (s : Ser) : Prop :=
  ∀ v w : s.Val, ¬ s.Same v w → ∀ (rest₁ rest₂ : Bytes) (key₁ key₂ : Text × Nat),
    decodeKey F (s.encode v ++ rest₁) "Pojo".toList (some info) = some key₁ →
    decodeKey F (s.encode w ++ rest₂) "Pojo".toList (some info) = some key₂ →
      key₁.1 ≠ key₂.1 ∧
      ∀ ctx : KeyGroupParse, ctx.keyType = "Pojo".toList → ctx.keyPojo = some info →
        ∀ (block : Bytes) (keyGroup : UInt16), ∀ f₁ ∈ (blockFrames ctx block).1,
          ∀ f₂ ∈ (blockFrames ctx block).1, f₁.2.Holds F ctx f₁.1 (s.encode v) →
            f₂.2.Holds F ctx f₂.1 (s.encode w) → ∀ k ∈ (groupBlock F ctx block keyGroup).1,
              ¬ (frameEntry ctx F keyGroup f₁.1 f₁.2 ∈ entriesOf F ctx block keyGroup k.key ∧
                frameEntry ctx F keyGroup f₂.1 f₂.2 ∈ entriesOf F ctx block keyGroup k.key)

variable {F : FloatText} {info : PojoInfo} {className : Text} {fields : List SerField}

theorem encode_pojo_ne_nil (v : (Ser.pojo className fields).Val) :
    (Ser.pojo className fields).encode v ≠ [] := by
  match v with
  | (none : Option (PojoVal fields)) => exact List.cons_ne_nil _ _
  | (some _ : Option (PojoVal fields)) => exact List.cons_ne_nil _ _

/-- An exact layout tells its keys apart. -/
theorem tellsKeysApart_of_exact (hs : fieldsAreNamed none fields info.fields = true)
    (hj : (Ser.pojo className fields).isJava = true) (hx : fieldsAreExact fields = true) :
    TellsKeysApart F info (.pojo className fields) := by
  intro v w hne rest₁ rest₂ key₁ key₂ h₁ h₂
  obtain ⟨hv, rfl⟩ := text_of_decodeKey hs hj h₁
  obtain ⟨hw, rfl⟩ := text_of_decodeKey hs hj h₂
  have hdiffer : valueToDisplay ((Ser.pojo className fields).render F none v)
      ≠ valueToDisplay ((Ser.pojo className fields).render F none w) :=
    fun h => hne (text_inj hj hx hv hw h)
  refine ⟨hdiffer, ?_⟩
  rintro ctx htype hpojo block keyGroup f₁ - f₂ - hf₁ hf₂ k - ⟨he₁, he₂⟩
  have hkey {u : (Ser.pojo className fields).Val} (hu : (Ser.pojo className fields).WithinLimits u)
      {f : UInt16 × Frame} (hf : f.2.Holds F ctx f.1 ((Ser.pojo className fields).encode u)) :
      (frameEntry ctx F keyGroup f.1 f.2).key
        = valueToDisplay ((Ser.pojo className fields).render F none u) := by
    refine key_frameEntry (encode_pojo_ne_nil u) hf (fun after => ?_) keyGroup
    rw [htype, hpojo]
    exact decodeKey_encode_pojo hs hu after
  have htext₁ := (List.mem_filter.mp he₁).2
  have htext₂ := (List.mem_filter.mp he₂).2
  rw [decide_eq_true_eq] at htext₁ htext₂
  exact hdiffer ((hkey hv hf₁).symm.trans (htext₁.trans (htext₂.symm.trans (hkey hw hf₂))))

/-- **Keys are told apart exactly when no two values of a field look alike.** -/
theorem tellsKeysApart_iff (hF : F.FiniteOnly)
    (hs : fieldsAreNamed none fields info.fields = true)
    (hj : (Ser.pojo className fields).isJava = true) :
    TellsKeysApart F info (.pojo className fields) ↔ fieldsAreExact fields = true := by
  refine ⟨fun h => ?_, tellsKeysApart_of_exact hs hj⟩
  by_contra hx
  rw [Bool.not_eq_true] at hx
  obtain ⟨v, w, hv, hw, hne, halike⟩ := Ser.exists_lookalike hF (.pojo className fields) hx
  exact (h v w hne [] [] _ _ (decodeKey_encode_pojo hs hv []) (decodeKey_encode_pojo hs hw [])).1
    (congrArg valueToDisplay halike)

theorem bitsText_finiteOnly : bitsText.FiniteOnly where
  fromF32 bits h := by
    show printBits (bits.toNat / 2 ^ 23 % 256 != 255) _ _ = none
    rw [h]
    rfl
  fromF64 bits h := by
    show printBits (bits.toNat / 2 ^ 52 % 2048 != 2047) _ _ = none
    rw [h]
    rfl

/-- A POJO key of a number and a day. -/
def bookingSer : Ser :=
  .pojo "com.acme.Booking".toList
    [.mk "room".toList (.scalar .int), .mk "day".toList (.nullable (.scalar .localDate))]

def bookingInfo : PojoInfo :=
  .mk "com.acme.Booking".toList "Booking".toList
    [.mk "room".toList "Int".toList none, .mk "day".toList "Nullable<LocalDate>".toList none]

/-- Rooms and days are told apart. -/
theorem tellsKeysApart_booking : TellsKeysApart bitsText bookingInfo bookingSer :=
  (tellsKeysApart_iff bitsText_finiteOnly (by decide +kernel) (by decide +kernel)).mpr
    (by decide +kernel)

/-- A POJO key of one timestamp. -/
def readingSer : Ser := .pojo "com.acme.Reading".toList [.mk "at".toList (.scalar .timestamp)]

def readingInfo : PojoInfo :=
  .mk "com.acme.Reading".toList "Reading".toList [.mk "at".toList "Timestamp".toList none]

/-- The key of a reading at the epoch, and a number of nanoseconds. -/
def readingKey (nanos : Int32) : readingSer.Val :=
  let fields : PojoVal [.mk "at".toList (.scalar .timestamp)] :=
    (some ((0 : Int64), nanos), ())
  some fields

/-- An entry of a reading's key, of no value: the key-group, the key and the namespace. -/
def readingEntry (keyGroup nanos : UInt8) : Bytes :=
  [0, 0, 0, 16] ++ [keyGroup, 2, 0, 0, 0, 0, 0, 0, 0, 0, 0, 0, 0, 0, nanos, 0] ++ [0, 0, 0, 0]

/-- A block of one state with the keys of two readings a nanosecond apart. -/
def readingBlock : Bytes := [0, 0] ++ readingEntry 0 0 ++ readingEntry 0x80 1 ++ [0xFF, 0xFF]

def readingParse : KeyGroupParse where
  numStates := 1
  keyType := "Pojo".toList
  kgPrefixLen := 1
  keyPojo := some readingInfo
  stateTypes := ["VALUE".toList]
  layouts := [⟨some 1, none⟩]
  onlyState := none

theorem encode_readingKey (nanos : Int32) :
    readingSer.encode (readingKey nanos) = [2, 0, 0, 0, 0, 0, 0, 0, 0, 0] ++ writeInt nanos := by
  have hzero : writeLong 0 = [0, 0, 0, 0, 0, 0, 0, 0] := by decide +kernel
  show 2 :: ((writeBoolean false ++ (writeLong 0 ++ writeInt nanos)) ++ []) = _
  rw [List.append_nil, hzero]
  rfl

/-- Keys a nanosecond apart have one text, and their entries one record. -/
theorem not_tellsKeysApart_reading :
    ¬ TellsKeysApart bitsText readingInfo readingSer ∧
      readingSer.encode (readingKey 0) ≠ readingSer.encode (readingKey 1) ∧
      (groupBlock bitsText readingParse readingBlock 0).1.map (fun k => (k.key, k.entries.length))
        = [("\x7b at: \"1970-01-01T00:00:00Z\" \x7d".toList, 2)] := by
  have hbytes (nanos : Int32) : readingSer.encode (readingKey nanos) ++ []
      = [2, 0, 0, 0, 0, 0, 0, 0, 0, 0] ++ writeInt nanos := by
    rw [encode_readingKey, List.append_nil]
  have hne : ¬ readingSer.Same (readingKey 0) (readingKey 1) :=
    fun h => absurd (congrArg Prod.snd h.1) (show ¬ (0 : Int32) = 1 by decide)
  have hblock : (groupBlock bitsText readingParse readingBlock 0).1.map
      (fun k => (k.key, k.entries.length)) = [("\x7b at: \"1970-01-01T00:00:00Z\" \x7d".toList, 2)] := by
    decide +kernel
  have hkey₀ : decodeKey bitsText ([2, 0, 0, 0, 0, 0, 0, 0, 0, 0] ++ writeInt 0) "Pojo".toList
      (some readingInfo) = some ("\x7b at: \"1970-01-01T00:00:00Z\" \x7d".toList, 14) := by decide +kernel
  have hkey₁ : decodeKey bitsText ([2, 0, 0, 0, 0, 0, 0, 0, 0, 0] ++ writeInt 1) "Pojo".toList
      (some readingInfo) = some ("\x7b at: \"1970-01-01T00:00:00Z\" \x7d".toList, 14) := by decide +kernel
  refine ⟨fun h => ?_, ?_, hblock⟩
  · rw [← hbytes] at hkey₀ hkey₁
    exact (h _ _ hne [] [] _ _ hkey₀ hkey₁).1 rfl
  · rw [encode_readingKey, encode_readingKey]
    decide

end Main

end FlinkExplorer
