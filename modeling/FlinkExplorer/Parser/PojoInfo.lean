import FlinkExplorer.Lib.Calendar
import FlinkExplorer.Lib.Text

namespace FlinkExplorer

open Lib

/-!
# `parser/pojo.rs` — POJO layouts and timestamps

The layout of a POJO as its serializer snapshot gives it (`PojoInfo`), and the ISO 8601
rendering of epoch milliseconds (`millisToIso`), which tells its instant (`millisToIso_inj`).
-/

mutual

/-- Parsed POJO serializer info. -/
inductive PojoInfo
  | mk (className shortName : Text) (fields : List PojoField)

/-- A POJO field with its name and type; when the field is itself a POJO (or a list, array or
    nullable of one), its layout. -/
inductive PojoField
  | mk (name typeName : Text) (nestedPojo : Option PojoInfo)

end

namespace PojoInfo

def className : PojoInfo → Text
  | mk c _ _ => c

def shortName : PojoInfo → Text
  | mk _ s _ => s

def fields : PojoInfo → List PojoField
  | mk _ _ fs => fs

end PojoInfo

namespace PojoField

def name : PojoField → Text
  | mk n _ _ => n

def typeName : PojoField → Text
  | mk _ t _ => t

def nestedPojo : PojoField → Option PojoInfo
  | mk _ _ p => p

end PojoField

/-! ### Nesting -/

mutual

/-- How much there is to descend into in a layout: more than in any of its fields. -/
def PojoInfo.weight : PojoInfo → Nat
  | .mk _ _ fs => fieldsWeight fs + 1

/-- The sum of the weights of a list of fields. -/
def fieldsWeight : List PojoField → Nat
  | [] => 0
  | f :: fs => f.weight + fieldsWeight fs

/-- A field weighs its type name and its nested layout. -/
def PojoField.weight : PojoField → Nat
  | .mk _ t none => t.length
  | .mk _ t (some info) => t.length + info.weight

end

/-- The weight of a layout that may be absent. -/
def nestedWeight : Option PojoInfo → Nat
  | none => 0
  | some info => info.weight

@[simp] theorem nestedWeight_none : nestedWeight none = 0 := rfl

@[simp] theorem nestedWeight_some (info : PojoInfo) : nestedWeight (some info) = info.weight := rfl

theorem PojoField.weight_eq (f : PojoField) :
    f.weight = f.typeName.length + nestedWeight f.nestedPojo := by
  rcases f with ⟨n, t, _ | info⟩ <;> simp [PojoField.weight, typeName, nestedPojo]

theorem fieldsWeight_of_mem {f : PojoField} {fs : List PojoField} (h : f ∈ fs) :
    f.weight ≤ fieldsWeight fs := by
  induction fs with
  | nil => cases h
  | cons g fs ih =>
    rw [fieldsWeight]
    rcases List.mem_cons.mp h with rfl | h
    · omega
    · have := ih h
      omega

/-- A field is lighter than the layout it belongs to. -/
theorem PojoInfo.weight_of_mem {f : PojoField} {info : PojoInfo} (h : f ∈ info.fields) :
    f.typeName.length + nestedWeight f.nestedPojo < info.weight := by
  rcases info with ⟨c, s, fs⟩
  have := fieldsWeight_of_mem h
  rw [PojoField.weight_eq] at this
  rw [PojoInfo.weight]
  have hfs : (PojoInfo.mk c s fs).fields = fs := rfl
  rw [hfs] at this
  omega

/-! ### Epoch milliseconds -/

/-- Convert epoch milliseconds to ISO 8601 (UTC).  The quantities stay far inside `i64`. -/
def millisToIso (millis : Int) : Text :=
  if millis = 0 then "1970-01-01T00:00:00Z".toList
  else
    let totalSecs := millis / 1000
    let ms := millis % 1000
    let days := totalSecs / 86400
    let daySecs := totalSecs % 86400
    let hour := daySecs / 3600
    let minute := daySecs % 3600 / 60
    let second := daySecs % 60
    let (y, m, d) := civilFromDays days
    let date := padInt 4 y ++ '-' :: padInt 2 m ++ '-' :: padInt 2 d
    let time := padInt 2 hour ++ ':' :: padInt 2 minute ++ ':' :: padInt 2 second
    if ms = 0 then date ++ 'T' :: time ++ ['Z']
    else date ++ 'T' :: time ++ '.' :: padInt 3 ms ++ ['Z']

/-- The date part of an ISO text. -/
def isoDate (date : Int × Int × Int) : Text :=
  padInt 4 date.1 ++ '-' :: padInt 2 date.2.1 ++ '-' :: padInt 2 date.2.2

/-- The time part of an ISO text, up to the seconds' fraction. -/
def isoTime (daySecs : Int) : Text :=
  padInt 2 (daySecs / 3600) ++ ':' :: padInt 2 (daySecs % 3600 / 60) ++ ':' ::
    padInt 2 (daySecs % 60)

/-- The fraction of an ISO text: nothing when there is none. -/
def isoFraction (ms : Int) : Text := if ms = 0 then ['Z'] else '.' :: padInt 3 ms ++ ['Z']

/-- The epoch is no special case: its text is what the general rule gives. -/
theorem millisToIso_eq (millis : Int) :
    millisToIso millis
      = isoDate (civilFromDays (millis / 1000 / 86400)) ++ 'T' ::
          (isoTime (millis / 1000 % 86400) ++ isoFraction (millis % 1000)) := by
  by_cases h0 : millis = 0
  · subst h0
    decide +kernel
  · simp only [millisToIso, h0, ↓reduceIte, isoDate, isoTime, isoFraction]
    split <;> simp

section IsoText

theorem ne_of_isDigit {c d : Char} (hc : c.isDigit = true) (hd : d.isDigit = false) : c ≠ d := by
  rintro rfl
  rw [hc] at hd
  cases hd

/-- A padded number holds no separator other than a sign. -/
theorem sep_not_mem_padInt {sep : Char} (hd : sep.isDigit = false) (hm : sep ≠ '-') (w : Nat)
    (v : Int) : sep ∉ padInt w v := by
  intro h
  rcases digit_or_minus_of_mem_padInt h with hdigit | hminus
  · exact ne_of_isDigit hdigit hd rfl
  · exact hm hminus

theorem minus_not_mem_padInt {w : Nat} {v : Int} (h : 0 ≤ v) : '-' ∉ padInt w v := by
  rw [padInt_of_nonneg h]
  exact minus_not_mem_padNat _ _

theorem isoDate_inj {a b : Int × Int × Int} (ha : 0 ≤ a.2.1 ∧ 0 ≤ a.2.2)
    (hb : 0 ≤ b.2.1 ∧ 0 ≤ b.2.2) (h : isoDate a = isoDate b) : a = b := by
  -- The year may be negative, so the parts are told apart from the right.
  obtain ⟨hym, hday⟩ := sep_append_inj (minus_not_mem_padInt ha.2) (minus_not_mem_padInt hb.2) h
  obtain ⟨hyear, hmonth⟩ :=
    sep_append_inj (minus_not_mem_padInt ha.1) (minus_not_mem_padInt hb.1) hym
  exact Prod.ext (padInt_inj hyear) (Prod.ext (padInt_inj hmonth) (padInt_inj hday))

theorem T_not_mem_isoDate (date : Int × Int × Int) : 'T' ∉ isoDate date := by
  have hpad (w : Nat) (v : Int) : 'T' ∉ padInt w v := sep_not_mem_padInt rfl (by decide) w v
  simp [isoDate, hpad]

theorem isoFraction_inj {a b : Int} (h : isoFraction a = isoFraction b) : a = b := by
  unfold isoFraction at h
  split at h <;> split at h
  · omega
  · exact absurd (List.cons.inj h).1 (by decide)
  · exact absurd (List.cons.inj h).1 (by decide)
  · obtain ⟨-, htail⟩ := List.cons.inj h
    exact padInt_inj (List.append_cancel_right htail)

/-- The seconds end where their digits do. -/
theorem seconds_inj {a b fa fb : Int}
    (h : padInt 2 a ++ isoFraction fa = padInt 2 b ++ isoFraction fb) (ha : 0 ≤ a) (hb : 0 ≤ b) :
    a = b ∧ fa = fb := by
  rw [padInt_of_nonneg ha, padInt_of_nonneg hb] at h
  have hstop (f : Int) : ∀ c ∈ (isoFraction f).head?, c.isDigit = false := by
    unfold isoFraction
    split <;> simp
  have htake (n : Nat) (f : Int) :
      (padNat 2 n ++ isoFraction f).takeWhile Char.isDigit = padNat 2 n := by
    rw [List.takeWhile_append_of_pos fun c hc => isDigit_of_mem_padNat hc]
    cases hf : isoFraction f with
    | nil => simp
    | cons c t =>
      have hc : c.isDigit = false := hstop f c (by simp [hf])
      rw [List.takeWhile_cons_of_neg (by simp [hc]), List.append_nil]
  have hdigits : padNat 2 a.natAbs = padNat 2 b.natAbs := by
    rw [← htake a.natAbs fa, h, htake]
  rw [hdigits] at h
  have := padNat_inj hdigits
  exact ⟨by omega, isoFraction_inj (List.append_cancel_left h)⟩

theorem isoTime_inj {a b fa fb : Int}
    (h : isoTime a ++ isoFraction fa = isoTime b ++ isoFraction fb) : a = b ∧ fa = fb := by
  have hpad (v : Int) : ':' ∉ padInt 2 v := sep_not_mem_padInt rfl (by decide) 2 v
  unfold isoTime at h
  simp only [List.append_assoc, List.cons_append] at h
  obtain ⟨hhour, hrest⟩ := append_sep_inj (hpad _) (hpad _) h
  obtain ⟨hminute, hsecond⟩ := append_sep_inj (hpad _) (hpad _) hrest
  have h1 := padInt_inj hhour
  have h2 := padInt_inj hminute
  obtain ⟨h3, hf⟩ := seconds_inj hsecond (by omega) (by omega)
  exact ⟨by omega, hf⟩

/-- **An ISO text tells its instant.** -/
theorem millisToIso_inj {a b : Int} (h : millisToIso a = millisToIso b) : a = b := by
  rw [millisToIso_eq, millisToIso_eq] at h
  obtain ⟨hdate, htime⟩ := append_sep_inj (T_not_mem_isoDate _) (T_not_mem_isoDate _) h
  have hbounds (days : Int) := civilFromDays_bounds days
  have ha := hbounds (a / 1000 / 86400)
  have hb := hbounds (b / 1000 / 86400)
  have hdays := civilFromDays_inj (isoDate_inj (by omega) (by omega) hdate)
  obtain ⟨hsecs, hms⟩ := isoTime_inj htime
  omega

end IsoText

end FlinkExplorer
