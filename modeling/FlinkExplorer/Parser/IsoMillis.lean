import FlinkExplorer.Lib.Checked
import FlinkExplorer.Parser.JavaKey

namespace FlinkExplorer

open Lib

/-!
# Dates as text and back

`millisToIso` and `parseIsoMillis` with every `i64` and `u32` operation checked, against the
calendar:

* `IsIso` — the ISO 8601 text of an instant of the proleptic Gregorian calendar, in UTC;
* `Checked.millisToIso`, `Checked.parseIsoMillis` — the code's own steps, which abort where an
  operation overflows;
* `isIso_millisToIso` — every instant is written as its ISO text;
* `checked_parse_millisToIso` — the text is read back, unless its whole seconds are too early for
  milliseconds;
* `dates_render_and_parse_iff` — the two together.
-/

/-! ### The text of an instant -/

/-- The ISO 8601 text of a UTC instant in epoch milliseconds: the year with a sign when it is
    negative and at least four characters wide, and milliseconds when there are some. -/
def IsIso (millis : Int) (text : Text) : Prop :=
  ∃ y m d hour minute second ms : Int,
    IsDate (y, m, d) ∧ (0 ≤ hour ∧ hour < 24) ∧ (0 ≤ minute ∧ minute < 60)
      ∧ (0 ≤ second ∧ second < 60) ∧ (0 ≤ ms ∧ ms < 1000)
      ∧ millis = (((dayNumber y m d * 24 + hour) * 60 + minute) * 60 + second) * 1000 + ms
      ∧ text = padInt 4 y ++ '-' :: padInt 2 m ++ '-' :: padInt 2 d ++ 'T' :: padInt 2 hour
        ++ ':' :: padInt 2 minute ++ ':' :: padInt 2 second
        ++ (if ms = 0 then [] else '.' :: padInt 3 ms) ++ ['Z']

/-- **Every instant is written as its ISO text.** -/
theorem isIso_millisToIso (millis : Int) : IsIso millis (millisToIso millis) := by
  refine ⟨(civilFromDays (millis / 1000 / 86400)).1, (civilFromDays (millis / 1000 / 86400)).2.1,
    (civilFromDays (millis / 1000 / 86400)).2.2, millis / 1000 % 86400 / 3600,
    millis / 1000 % 86400 % 3600 / 60, millis / 1000 % 86400 % 60, millis % 1000,
    isDate_civilFromDays _, by omega, by omega, by omega, by omega, ?_, ?_⟩
  · rw [dayNumber_civilFromDays]
    omega
  · rw [millisToIso_eq, isoDate, isoTime, isoFraction]
    by_cases hms : millis % 1000 = 0
    · simp [hms]
    · simp [hms]

/-! ### Checked steps -/

/-- A result that fits a `u32`. -/
def inU32 (v : Int) : Option Int := if 0 ≤ v ∧ v < 2 ^ 32 then some v else none

theorem inI64_eq {v : Int} (h : -2 ^ 63 ≤ v) (h' : v < 2 ^ 63) : inI64 v = some v :=
  if_pos ⟨h, by omega⟩

theorem inU32_eq {v : Int} (h : 0 ≤ v) (h' : v < 2 ^ 32) : inU32 v = some v := if_pos ⟨h, h'⟩

namespace Checked

/-- `yoe` of `millis_to_iso`, on `u32`. -/
def yearOfEra (doe : Int) : Option Int := do
  let past ← inU32 (doe - doe / 1460)
  let past ← inU32 (past + doe / 36524)
  let past ← inU32 (past - doe / 146096)
  pure (past / 365)

/-- `doy` of `millis_to_iso`, on `u32`. -/
def dayOfYear (doe yoe : Int) : Option Int := do
  let before ← inU32 (365 * yoe)
  let before ← inU32 (before + yoe / 4)
  let before ← inU32 (before - yoe / 100)
  inU32 (doe - before)

/-- Year, month and day of `millis_to_iso`: the month and the day on `u32`. -/
def dateOfYearDay (y doy : Int) : Option (Int × Int × Int) := do
  let fives ← inU32 (5 * doy)
  let fives ← inU32 (fives + 2)
  let mp := fives / 153
  let days ← inU32 (153 * mp)
  let days ← inU32 (days + 2)
  let d ← inU32 (doy - days / 5)
  let d ← inU32 (d + 1)
  let m ← (if mp < 10 then inU32 (mp + 3) else inU32 (mp - 9))
  let y ← (if m ≤ 2 then inI64 (y + 1) else some y)
  pure (y, m, d)

/-- The date of a day in `millis_to_iso`: the day of the era is cast to `u32`. -/
def civilFromDays (days : Int) : Option (Int × Int × Int) := do
  let days ← inI64 (days + 719468)
  let start ← (if days ≥ 0 then some days else inI64 (days - 146096))
  let era := start.tdiv 146097
  let past ← inI64 (era * 146097)
  let doe ← inI64 (days - past)
  let doe := doe % 2 ^ 32
  let yoe ← yearOfEra doe
  let y ← inI64 (era * 400)
  let y ← inI64 (yoe + y)
  let doy ← dayOfYear doe yoe
  dateOfYearDay y doy

/-- `millis_to_iso`. -/
def millisToIso (millis : Int64) : Option Text := do
  if millis = 0 then return "1970-01-01T00:00:00Z".toList
  let totalSecs := millis.toInt / 1000
  let ms := millis.toInt % 1000
  let daySecs := totalSecs % 86400
  let (y, m, d) ← civilFromDays (totalSecs / 86400)
  let date := padInt 4 y ++ '-' :: padInt 2 m ++ '-' :: padInt 2 d
  let time := padInt 2 (daySecs / 3600) ++ ':' :: padInt 2 (daySecs % 3600 / 60) ++ ':'
    :: padInt 2 (daySecs % 60)
  if ms = 0 then return date ++ 'T' :: time ++ ['Z']
  else return date ++ 'T' :: time ++ '.' :: padInt 3 ms ++ ['Z']

end Checked

section Dates

variable {doe yoe doy y : Int}

theorem checked_yearOfEra (h0 : 0 ≤ doe) (h1 : doe < 146097) :
    Checked.yearOfEra doe = some (yearOfEra doe) := by
  unfold Checked.yearOfEra yearOfEra
  simp only [Option.bind_eq_bind]
  rw [inU32_eq (by omega) (by omega), Option.bind_some,
    inU32_eq (by omega) (by omega), Option.bind_some,
    inU32_eq (by omega) (by omega), Option.bind_some]
  rfl

theorem checked_dayOfYear (h1 : doe < 146097) (hy0 : 0 ≤ yoe) (hy1 : yoe < 400)
    (hd : 0 ≤ dayOfYear doe yoe) : Checked.dayOfYear doe yoe = some (dayOfYear doe yoe) := by
  unfold dayOfYear at hd ⊢
  unfold Checked.dayOfYear
  simp only [Option.bind_eq_bind]
  rw [inU32_eq (by omega) (by omega), Option.bind_some,
    inU32_eq (by omega) (by omega), Option.bind_some,
    inU32_eq (by omega) (by omega), Option.bind_some,
    inU32_eq (by omega) (by omega)]

theorem checked_dateOfYearDay (h0 : 0 ≤ doy) (h1 : doy ≤ 365) (hy : -2 ^ 62 < y)
    (hy' : y < 2 ^ 62) : Checked.dateOfYearDay y doy = some (dateOfYearDay y doy) := by
  have hmonth (mp : Int) (h : 0 ≤ mp) (h' : mp < 12) :
      (if mp < 10 then inU32 (mp + 3) else inU32 (mp - 9))
        = some (if mp < 10 then mp + 3 else mp - 9) := by
    by_cases hmp : mp < 10
    · rw [if_pos hmp, if_pos hmp, inU32_eq (by omega) (by omega)]
    · rw [if_neg hmp, if_neg hmp, inU32_eq (by omega) (by omega)]
  have hyear (m : Int) : (if m ≤ 2 then inI64 (y + 1) else some y)
      = some (if m ≤ 2 then y + 1 else y) := by
    by_cases hm : m ≤ 2
    · rw [if_pos hm, if_pos hm, inI64_eq (by omega) (by omega)]
    · rw [if_neg hm, if_neg hm]
  unfold Checked.dateOfYearDay dateOfYearDay
  simp only [Option.bind_eq_bind]
  rw [inU32_eq (by omega) (by omega), Option.bind_some,
    inU32_eq (by omega) (by omega), Option.bind_some,
    inU32_eq (by omega) (by omega), Option.bind_some,
    inU32_eq (by omega) (by omega), Option.bind_some,
    inU32_eq (by omega) (by omega), Option.bind_some,
    inU32_eq (by omega) (by omega), Option.bind_some,
    hmonth _ (by omega) (by omega), Option.bind_some,
    hyear, Option.bind_some]
  rfl

/-- No step on the way to a date overflows. -/
theorem checked_civilFromDays {days : Int} (h : -2 ^ 40 < days) (h' : days < 2 ^ 40) :
    Checked.civilFromDays days = some (civilFromDays days) := by
  obtain ⟨⟨hy0, hy1⟩, hd0, hd1⟩ := civilFromDays_parts days
  have hera := eraOf_eq (days + 719468)
  have hstart : (if days + 719468 ≥ 0 then some (days + 719468) else inI64 (days + 719468 - 146096))
      = some (if days + 719468 ≥ 0 then days + 719468 else days + 719468 - 146096) := by
    split
    · rfl
    · exact inI64_eq (by omega) (by omega)
  have hdoe0 : 0 ≤ days + 719468 - eraOf (days + 719468) * 146097 := by omega
  have hdoe1 : days + 719468 - eraOf (days + 719468) * 146097 < 146097 := by omega
  have hcast : (days + 719468 - eraOf (days + 719468) * 146097) % 2 ^ 32
      = days + 719468 - eraOf (days + 719468) * 146097 := by omega
  unfold Checked.civilFromDays civilFromDays
  simp only [Option.bind_eq_bind]
  rw [inI64_eq (by omega) (by omega), Option.bind_some, hstart, Option.bind_some]
  rw [← eraOf, inI64_eq (by omega) (by omega), Option.bind_some,
    inI64_eq (by omega) (by omega), Option.bind_some]
  rw [hcast, checked_yearOfEra hdoe0 hdoe1, Option.bind_some,
    inI64_eq (by omega) (by omega), Option.bind_some,
    inI64_eq (by omega) (by omega), Option.bind_some,
    checked_dayOfYear hdoe1 hy0 hy1 hd0, Option.bind_some,
    checked_dateOfYearDay hd0 hd1 (by omega) (by omega)]

end Dates

/-- **No step of writing an instant overflows.** -/
theorem checked_millisToIso (millis : Int64) :
    Checked.millisToIso millis = some (millisToIso millis.toInt) := by
  have hlo := millis.le_toInt
  have hhi := millis.toInt_lt
  unfold Checked.millisToIso millisToIso
  by_cases h0 : millis = 0
  · subst h0
    rfl
  · have hne : millis.toInt ≠ 0 := fun h => h0 (Int64.toInt.inj h)
    rw [if_neg h0, if_neg hne]
    dsimp only
    rw [checked_civilFromDays (by omega) (by omega), Option.bind_eq_bind, Option.bind_some]
    split <;> rfl

/-! ### Reading the parts -/

/-- The parts of a date's text: numbers still as texts, the milliseconds read. -/
structure IsoParts where
  year : Text
  month : Text
  day : Text
  hour : Text
  minute : Text
  second : Text
  ms : Int

/-- The time of day and its milliseconds. -/
def timeParts (time : Text) : Option (Text × Int) :=
  match splitOnce '.' time with
  | some (hms, ms) => (parseI64 ms).map fun ms => (hms, ms.toInt)
  | none => some (time, 0)

/-- How `parse_iso_millis` takes a text apart. -/
def isoParts (text : Text) : Option IsoParts := do
  let (date, time) ← (stripSuffix ['Z'] text).bind (splitOnce 'T')
  let (y, m, d) ← splitDate date
  let (hms, ms) ← timeParts time
  match hms.splitOn ':' with
  | h :: mi :: s :: _ => some ⟨y, m, d, h, mi, s, ms⟩
  | _ => none

/-- The instant of a day and the parts of its time, if it is one. -/
def IsoParts.timeMillis (p : IsoParts) (days : Int) : Option Int :=
  (inI64 (days * 86400)).bind fun secs =>
    (datePart p.hour).bind fun hour => (datePart p.minute).bind fun minute =>
      (datePart p.second).bind fun second =>
        (inI64 (secs + (hour * 3600 + minute * 60 + second))).bind fun secs =>
          (inI64 (secs * 1000)).bind fun millis => inI64 (millis + p.ms)

/-- The instant of the parts, if it is one. -/
def IsoParts.millis (p : IsoParts) : Option Int :=
  (datePart p.year).bind fun y => (datePart p.month).bind fun m => (datePart p.day).bind fun d =>
    p.timeMillis (daysFromCivilTrunc y m d)

theorem parseIsoMillis_eq (text : Text) :
    parseIsoMillis text = ((isoParts (trim text)).bind IsoParts.millis).bind fun millis =>
      if millisToIso millis = trim text then some (Int64.ofInt millis) else none := by
  unfold parseIsoMillis isoParts timeParts
  dsimp only
  rcases (stripSuffix ['Z'] (trim text)).bind (splitOnce 'T') with _ | ⟨date, time⟩
  · rfl
  dsimp only [Option.bind_eq_bind, Option.bind_some]
  rcases splitDate date with _ | ⟨y, m, d⟩
  · rfl
  dsimp only [Option.bind_some]
  have htime (hms : Text) (ms : Int) (shown : Int → Option Int64) :
      (match hms.splitOn ':' with
      | h :: mi :: s :: _ =>
        (datePart y).bind fun y => (datePart m).bind fun m => (datePart d).bind fun d =>
          (inI64 (daysFromCivilTrunc y m d * 86400)).bind fun secs =>
            (datePart h).bind fun h => (datePart mi).bind fun mi => (datePart s).bind fun s =>
              (inI64 (secs + (h * 3600 + mi * 60 + s))).bind fun secs =>
                ((inI64 (secs * 1000)).bind fun v => inI64 (v + ms)).bind shown
      | _ => none)
        = ((match hms.splitOn ':' with
          | h :: mi :: s :: _ => some (IsoParts.mk y m d h mi s ms)
          | _ => none).bind IsoParts.millis).bind shown := by
    rcases hms.splitOn ':' with _ | ⟨h, _ | ⟨mi, _ | ⟨s, more⟩⟩⟩
    · rfl
    · rfl
    · rfl
    · simp only [Option.bind_some, IsoParts.millis, IsoParts.timeMillis, Option.bind_assoc]
  rcases splitOnce '.' time with _ | ⟨hms, ms⟩
  · exact htime time 0 _
  · dsimp only
    rcases parseI64 ms with _ | ms
    · rfl
    · exact htime hms ms.toInt _

namespace Checked

/-- `?` on an option. -/
def given {α : Type} (o : Option α) : OptionT Option α := OptionT.mk (some o)

/-- An operation that aborts where it overflows. -/
def step {α : Type} (o : Option α) : OptionT Option α := OptionT.lift o

/-- `num` of `parse_iso_millis`: `i64::MIN` has no absolute value. -/
def datePart (t : Text) : OptionT Option Int := do
  let v ← given ((parseI64 t).map Int64.toInt)
  let size ← step (inI64 v.natAbs)
  given (if size < 2 ^ 40 then some v else none)

/-- `days_from_civil`. -/
def daysFromCivil (y m d : Int) : Option Int := do
  let y ← (if m ≤ 2 then inI64 (y - 1) else some y)
  let start ← (if y ≥ 0 then some y else inI64 (y - 399))
  let era := start.tdiv 400
  let past ← inI64 (era * 400)
  let yoe ← inI64 (y - past)
  let mp ← (if m > 2 then inI64 (m - 3) else inI64 (m + 9))
  let days ← inI64 (153 * mp)
  let days ← inI64 (days + 2)
  let doy ← inI64 (days.tdiv 5 + d)
  let doy ← inI64 (doy - 1)
  let years ← inI64 (yoe * 365)
  let years ← inI64 (years + yoe.tdiv 4)
  let years ← inI64 (years - yoe.tdiv 100)
  let doe ← inI64 (years + doy)
  let eras ← inI64 (era * 146097)
  let days ← inI64 (eras + doe)
  inI64 (days - 719468)

/-- The instant of a day and the parts of its time in `parse_iso_millis`. -/
def timeMillis (p : IsoParts) (days : Int) : OptionT Option Int := do
  let secs ← given (inI64 (days * 86400))
  let hour ← datePart p.hour
  let hours ← step (inI64 (hour * 3600))
  let minute ← datePart p.minute
  let minutes ← step (inI64 (minute * 60))
  let time ← step (inI64 (hours + minutes))
  let second ← datePart p.second
  let time ← step (inI64 (time + second))
  let secs ← given (inI64 (secs + time))
  let millis ← given (inI64 (secs * 1000))
  given (inI64 (millis + p.ms))

/-- The instant of the parts in `parse_iso_millis`. -/
def millis (p : IsoParts) : OptionT Option Int := do
  let y ← datePart p.year
  let m ← datePart p.month
  let d ← datePart p.day
  let days ← step (daysFromCivil y m d)
  timeMillis p days

/-- `parse_iso_millis`. -/
def parseIsoMillis (text : Text) : OptionT Option Int64 := do
  let p ← given (isoParts (trim text))
  let millis ← millis p
  let shown ← step (millisToIso (Int64.ofInt millis))
  given (if shown = trim text then some (Int64.ofInt millis) else none)

/-- An operation overflowed. -/
def abort {α : Type} : OptionT Option α := OptionT.mk none

section Steps

variable {α β : Type} (f : α → OptionT Option β)

@[simp] theorem given_none_bind : (given none >>= f) = given none := rfl
@[simp] theorem given_some_bind (a : α) : (given (some a) >>= f) = f a := rfl
@[simp] theorem step_some_bind (a : α) : (step (some a) >>= f) = f a := rfl
@[simp] theorem step_none_bind : (step none >>= f) = abort := rfl
@[simp] theorem abort_bind : (abort >>= f) = abort := rfl

end Steps

end Checked

/-! ### Where parsing overflows -/

theorem toInt_minValue : Int64.minValue.toInt = -2 ^ 63 := rfl

/-- A number of a date is read alike in both, unless it is `i64::MIN`. -/
theorem datePart_cases (t : Text) :
    (parseI64 t = some Int64.minValue ∧ datePart t = none ∧ Checked.datePart t = Checked.abort)
      ∨ (parseI64 t ≠ some Int64.minValue ∧ datePart t = none
        ∧ Checked.datePart t = Checked.given none)
      ∨ ∃ v, parseI64 t ≠ some Int64.minValue ∧ -2 ^ 40 < v ∧ v < 2 ^ 40 ∧ datePart t = some v
        ∧ Checked.datePart t = Checked.given (some v) := by
  unfold datePart Checked.datePart
  rcases parseI64 t with _ | v
  · exact .inr (.inl ⟨nofun, rfl, rfl⟩)
  · have hlo := v.le_toInt
    have hhi := v.toInt_lt
    by_cases hmin : v = Int64.minValue
    · subst hmin
      exact .inl ⟨rfl, rfl, rfl⟩
    · have hne : v.toInt ≠ -2 ^ 63 := fun h => hmin (Int64.toInt.inj (h.trans toInt_minValue.symm))
      have hv : some v ≠ some Int64.minValue := fun h => hmin (Option.some.inj h)
      have hsize : inI64 (v.toInt.natAbs : Int) = some (v.toInt.natAbs : Int) :=
        inI64_eq (by omega) (by omega)
      simp only [Option.map_some, Checked.given_some_bind, hsize, Checked.step_some_bind]
      by_cases hsmall : v.toInt.natAbs < 2 ^ 40
      · have hsize' : ((v.toInt.natAbs : Nat) : Int) < 2 ^ 40 := by omega
        refine .inr (.inr ⟨v.toInt, hv, by omega, by omega, ?_, ?_⟩)
        · exact Option.filter_some_pos (decide_eq_true hsmall)
        · rw [if_pos hsize']
      · have hsize' : ¬ ((v.toInt.natAbs : Nat) : Int) < 2 ^ 40 := by omega
        refine .inr (.inl ⟨hv, ?_, ?_⟩)
        · exact Option.filter_some_neg (by simpa using hsmall)
        · rw [if_neg hsize']

/-- The era of a year, rounded down. -/
theorem tdiv_era (y : Int) : (if y ≥ 0 then y else y - 399).tdiv 400 = y / 400 := by
  by_cases h : y ≥ 0
  · rw [if_pos h, Int.tdiv_eq_ediv_of_nonneg h]
  · rw [if_neg h, ← Int.neg_neg (y - 399), Int.neg_tdiv, Int.tdiv_eq_ediv_of_nonneg (by omega)]
    omega

/-- Counting the days of a date from its parts does not overflow. -/
theorem checked_daysFromCivil {y m d : Int} (hy : -2 ^ 40 < y ∧ y < 2 ^ 40)
    (hm : -2 ^ 40 < m ∧ m < 2 ^ 40) (hd : -2 ^ 40 < d ∧ d < 2 ^ 40) :
    Checked.daysFromCivil y m d = some (daysFromCivilTrunc y m d)
      ∧ -2 ^ 52 < daysFromCivilTrunc y m d ∧ daysFromCivilTrunc y m d < 2 ^ 52 := by
  -- Every intermediate is bounded before the step that takes it is checked.
  have hyear : (if m ≤ 2 then inI64 (y - 1) else some y) = some (if m ≤ 2 then y - 1 else y) := by
    by_cases h : m ≤ 2
    · rw [if_pos h, if_pos h, inI64_eq (by omega) (by omega)]
    · rw [if_neg h, if_neg h]
  have hmonth : (if m > 2 then inI64 (m - 3) else inI64 (m + 9))
      = some (if m > 2 then m - 3 else m + 9) := by
    by_cases h : m > 2
    · rw [if_pos h, if_pos h, inI64_eq (by omega) (by omega)]
    · rw [if_neg h, if_neg h, inI64_eq (by omega) (by omega)]
  unfold Checked.daysFromCivil daysFromCivilTrunc
  simp only [Option.bind_eq_bind]
  rw [hyear, Option.bind_some, hmonth]
  have hy' : -2 ^ 40 - 1 < (if m ≤ 2 then y - 1 else y) ∧ (if m ≤ 2 then y - 1 else y) < 2 ^ 40 := by
    omega
  have hmp : -2 ^ 41 < (if m > 2 then m - 3 else m + 9)
      ∧ (if m > 2 then m - 3 else m + 9) < 2 ^ 41 := by omega
  generalize (if m ≤ 2 then y - 1 else y) = y' at hy' ⊢
  generalize (if m > 2 then m - 3 else m + 9) = mp at hmp ⊢
  have hstart : (if y' ≥ 0 then some y' else inI64 (y' - 399))
      = some (if y' ≥ 0 then y' else y' - 399) := by
    by_cases h : y' ≥ 0
    · rw [if_pos h, if_pos h]
    · rw [if_neg h, if_neg h, inI64_eq (by omega) (by omega)]
  -- the division truncates, and the 399 make it round down
  have hera : (if y' ≥ 0 then y' else y' - 399).tdiv 400 = y' / 400 := tdiv_era y'
  have hyoe : 0 ≤ y' - y' / 400 * 400 ∧ y' - y' / 400 * 400 < 400 := by omega
  have hfives : -2 ^ 51 < (153 * mp + 2).tdiv 5 ∧ (153 * mp + 2).tdiv 5 < 2 ^ 51 := by
    rcases Int.le_total 0 (153 * mp + 2) with h | h
    · rw [Int.tdiv_eq_ediv_of_nonneg h]
      omega
    · rw [← Int.neg_neg (153 * mp + 2), Int.neg_tdiv, Int.tdiv_eq_ediv_of_nonneg (by omega)]
      omega
  have hera' : -2 ^ 32 < y' / 400 ∧ y' / 400 < 2 ^ 32 := by omega
  rw [hstart, Option.bind_some, hera]
  generalize y' / 400 = era at hera' hyoe ⊢
  rw [inI64_eq (by omega) (by omega), Option.bind_some, inI64_eq (by omega) (by omega),
    Option.bind_some, Option.bind_some, inI64_eq (by omega) (by omega), Option.bind_some,
    inI64_eq (by omega) (by omega), Option.bind_some]
  generalize (153 * mp + 2).tdiv 5 = fives at hfives ⊢
  rw [inI64_eq (by omega) (by omega), Option.bind_some, inI64_eq (by omega) (by omega),
    Option.bind_some, Int.tdiv_eq_ediv_of_nonneg hyoe.1, Int.tdiv_eq_ediv_of_nonneg hyoe.1]
  generalize y' - era * 400 = yoe at hyoe ⊢
  have hquarters : 0 ≤ yoe / 4 ∧ yoe / 4 < 100 := by omega
  have hcenturies : 0 ≤ yoe / 100 ∧ yoe / 100 < 4 := by omega
  generalize yoe / 4 = quarters at hquarters ⊢
  generalize yoe / 100 = centuries at hcenturies ⊢
  refine ⟨?_, by omega, by omega⟩
  rw [inI64_eq (by omega) (by omega), Option.bind_some, inI64_eq (by omega) (by omega),
    Option.bind_some, inI64_eq (by omega) (by omega), Option.bind_some,
    inI64_eq (by omega) (by omega), Option.bind_some, inI64_eq (by omega) (by omega),
    Option.bind_some, inI64_eq (by omega) (by omega), Option.bind_some,
    inI64_eq (by omega) (by omega)]

/-- Whether reading the numbers in order comes to `i64::MIN`. -/
def readsMin : List Text → Bool
  | [] => false
  | t :: ts => parseI64 t = some Int64.minValue || ((datePart t).isSome && readsMin ts)

/-- Whether reading the parts overflows: the time is only read when the day's seconds fit. -/
def IsoParts.overflows (p : IsoParts) : Bool :=
  readsMin [p.year, p.month, p.day] || (match datePart p.year, datePart p.month, datePart p.day with
    | some y, some m, some d =>
      (inI64 (daysFromCivilTrunc y m d * 86400)).isSome && readsMin [p.hour, p.minute, p.second]
    | _, _, _ => false)

/-- The time is read alike in both, unless it comes to `i64::MIN`. -/
theorem checked_timeMillis (p : IsoParts) (days : Int) :
    Checked.timeMillis p days
      = if (inI64 (days * 86400)).isSome && readsMin [p.hour, p.minute, p.second] then Checked.abort
        else Checked.given (p.timeMillis days) := by
  unfold Checked.timeMillis IsoParts.timeMillis
  rcases inI64 (days * 86400) with _ | secs
  · rw [Option.isSome_none, Bool.false_and, if_neg Bool.false_ne_true, Checked.given_none_bind,
      Option.bind_none]
  rw [Option.isSome_some, Bool.true_and, Checked.given_some_bind, Option.bind_some]
  rcases datePart_cases p.hour with ⟨hmin, hh, hh'⟩ | ⟨hmin, hh, hh'⟩ | ⟨h, hmin, hh0, hh1, hh, hh'⟩
  · simp [hh', hmin, readsMin]
  · simp [hh, hh', hmin, readsMin]
  have hhours : inI64 (h * 3600) = some (h * 3600) := inI64_eq (by omega) (by omega)
  rw [hh, hh', Checked.given_some_bind, Option.bind_some, hhours, Checked.step_some_bind]
  rcases datePart_cases p.minute
    with ⟨hmin', hm, hm'⟩ | ⟨hmin', hm, hm'⟩ | ⟨m, hmin', hm0, hm1, hm, hm'⟩
  · simp [hm', hmin, hmin', hh, readsMin]
  · simp [hm, hm', hmin, hmin', hh, readsMin]
  have hminutes : inI64 (m * 60) = some (m * 60) := inI64_eq (by omega) (by omega)
  have htime : inI64 (h * 3600 + m * 60) = some (h * 3600 + m * 60) :=
    inI64_eq (by omega) (by omega)
  rw [hm, hm', Checked.given_some_bind, Option.bind_some, hminutes, Checked.step_some_bind, htime,
    Checked.step_some_bind]
  rcases datePart_cases p.second
    with ⟨hmin'', hs, hs'⟩ | ⟨hmin'', hs, hs'⟩ | ⟨s, hmin'', hs0, hs1, hs, hs'⟩
  · simp [hs', hmin, hmin', hmin'', hh, hm, readsMin]
  · simp [hs, hs', hmin, hmin', hmin'', hh, hm, readsMin]
  have hall : inI64 (h * 3600 + m * 60 + s) = some (h * 3600 + m * 60 + s) :=
    inI64_eq (by omega) (by omega)
  have hreads : readsMin [p.hour, p.minute, p.second] = false := by
    simp [readsMin, hmin, hmin', hmin'']
  rw [hs, hs', Checked.given_some_bind, Option.bind_some, hall, Checked.step_some_bind, hreads,
    if_neg Bool.false_ne_true]
  rcases inI64 (secs + (h * 3600 + m * 60 + s)) with _ | total
  · rw [Checked.given_none_bind, Option.bind_none]
  rw [Checked.given_some_bind, Option.bind_some]
  rcases inI64 (total * 1000) with _ | millis
  · rw [Checked.given_none_bind, Option.bind_none]
  rw [Checked.given_some_bind, Option.bind_some]

/-- **The parts are read alike in both, unless a step overflows.** -/
theorem checked_millis (p : IsoParts) :
    Checked.millis p = if p.overflows then Checked.abort else Checked.given p.millis := by
  unfold Checked.millis IsoParts.overflows IsoParts.millis
  rcases datePart_cases p.year with ⟨hmin, hy, hy'⟩ | ⟨hmin, hy, hy'⟩ | ⟨y, hmin, hy0, hy1, hy, hy'⟩
  · simp [hy', hmin, readsMin]
  · simp [hy, hy', hmin, readsMin]
  rcases datePart_cases p.month
    with ⟨hmin', hm, hm'⟩ | ⟨hmin', hm, hm'⟩ | ⟨m, hmin', hm0, hm1, hm, hm'⟩
  · simp [hy, hy', hmin, hm', hmin', readsMin]
  · simp [hy, hy', hmin, hm, hm', hmin', readsMin]
  rcases datePart_cases p.day
    with ⟨hmin'', hd, hd'⟩ | ⟨hmin'', hd, hd'⟩ | ⟨d, hmin'', hd0, hd1, hd, hd'⟩
  · simp [hy, hy', hmin, hm, hm', hmin', hd', hmin'', readsMin]
  · simp [hy, hy', hmin, hm, hm', hmin', hd, hd', hmin'', readsMin]
  obtain ⟨hdays, -⟩ := checked_daysFromCivil ⟨hy0, hy1⟩ ⟨hm0, hm1⟩ ⟨hd0, hd1⟩
  have hreads : readsMin [p.year, p.month, p.day] = false := by
    simp [readsMin, hmin, hmin', hmin'']
  simp only [hy, hy', hm, hm', hd, hd', Checked.given_some_bind, Option.bind_some, hdays,
    Checked.step_some_bind, checked_timeMillis, hreads, Bool.false_or]

theorem inI64_eq_some {v u : Int} (h : inI64 v = some u) : v = u ∧ -2 ^ 63 ≤ u ∧ u < 2 ^ 63 := by
  unfold inI64 at h
  by_cases hv : -2 ^ 63 ≤ v ∧ v ≤ 2 ^ 63 - 1
  · rw [if_pos hv] at h
    obtain rfl := Option.some.inj h
    exact ⟨rfl, hv.1, by omega⟩
  · rw [if_neg hv] at h
    cases h

/-- An instant that is read is an `i64`. -/
theorem IsoParts.toInt_millis {p : IsoParts} {v : Int} (h : p.millis = some v) :
    (Int64.ofInt v).toInt = v := by
  unfold IsoParts.millis IsoParts.timeMillis at h
  simp only [Option.bind_eq_some_iff] at h
  obtain ⟨_, -, _, -, _, -, _, -, _, -, _, -, _, -, _, -, _, -, hv⟩ := h
  obtain ⟨-, hlo, hhi⟩ := inI64_eq_some hv
  exact Int64.toInt_ofInt_of_le hlo hhi

/-- **A text is read as without checks, unless a step overflows.** -/
theorem checked_parseIsoMillis (text : Text) :
    Checked.parseIsoMillis text
      = if (isoParts (trim text)).any IsoParts.overflows then Checked.abort
        else Checked.given (parseIsoMillis text) := by
  rw [parseIsoMillis_eq]
  unfold Checked.parseIsoMillis
  rcases isoParts (trim text) with _ | p
  · rfl
  rw [Checked.given_some_bind, checked_millis, Option.any_some]
  by_cases hover : p.overflows = true
  · rw [if_pos hover, if_pos hover, Checked.abort_bind]
  rw [if_neg hover, if_neg hover, Option.bind_some]
  rcases hmillis : p.millis with _ | v
  · rw [Checked.given_none_bind, Option.bind_none]
  rw [Checked.given_some_bind, Option.bind_some, checked_millisToIso, Checked.step_some_bind,
    IsoParts.toInt_millis hmillis]

/-! ### Reading a rendering -/

section Rendering

theorem datePart_padInt {v : Int} (w : Nat) (hlo : -2 ^ 40 < v) (hhi : v < 2 ^ 40) :
    datePart (padInt w v) = some v := by
  unfold datePart
  rw [parseI64_padInt w (by omega) (by omega), Option.map_some,
    Int64.toInt_ofInt_of_le (by omega) (by omega)]
  exact Option.filter_some_pos (decide_eq_true (by omega))

theorem splitDate_append (y : Text) {m d : Text} (hm : '-' ∉ m) (hd : '-' ∉ d) :
    splitDate (y ++ '-' :: m ++ '-' :: d) = some (y, m, d) := by
  have hkeep {t : Text} (ht : '-' ∉ t) : ∀ c ∈ t.reverse, (c != '-') = true := fun c hc => by
    simpa using fun h : c = '-' => ht (h ▸ List.mem_reverse.mp hc)
  have hback : (y ++ '-' :: m ++ '-' :: d).reverse
      = d.reverse ++ '-' :: (m.reverse ++ '-' :: y.reverse) := by simp
  unfold splitDate
  dsimp only
  rw [hback, List.takeWhile_append_of_pos (hkeep hd), List.dropWhile_append_of_pos (hkeep hd)]
  simp only [List.takeWhile_cons, List.dropWhile_cons, bne_self_eq_false, Bool.false_eq_true,
    ↓reduceIte, List.append_nil, List.drop_succ_cons, List.drop_zero, List.reverse_reverse,
    List.takeWhile_append_of_pos (hkeep hm), List.dropWhile_append_of_pos (hkeep hm)]
  simp

variable (m : Int)

/-- The parts of an instant's text. -/
def partsOf : IsoParts where
  year := padInt 4 (civilFromDays (m / 1000 / 86400)).1
  month := padInt 2 (civilFromDays (m / 1000 / 86400)).2.1
  day := padInt 2 (civilFromDays (m / 1000 / 86400)).2.2
  hour := padInt 2 (m / 1000 % 86400 / 3600)
  minute := padInt 2 (m / 1000 % 86400 % 3600 / 60)
  second := padInt 2 (m / 1000 % 86400 % 60)
  ms := m % 1000

/-- A rendering comes apart into its parts. -/
theorem isoParts_millisToIso : isoParts (millisToIso m) = some (partsOf m) := by
  obtain ⟨hmonth, -, hday, -⟩ := civilFromDays_bounds (m / 1000 / 86400)
  have hsep (sep : Char) (hd : sep.isDigit = false) (hm : sep ≠ '-') (w : Nat) (v : Int) :
      sep ∉ padInt w v := sep_not_mem_padInt hd hm w v
  have hdot : '.' ∉ isoTime (m / 1000 % 86400) := by
    simp [isoTime, hsep '.' rfl (by decide)]
  have hfraction : ∃ t, isoFraction (m % 1000) = t ++ ['Z']
      ∧ timeParts (isoTime (m / 1000 % 86400) ++ t)
        = some (isoTime (m / 1000 % 86400), m % 1000) := by
    unfold isoFraction timeParts
    by_cases hms : m % 1000 = 0
    · refine ⟨[], ?_, ?_⟩
      · rw [if_pos hms, List.nil_append]
      · rw [List.append_nil, splitOnce_none hdot, hms]
    · refine ⟨'.' :: padInt 3 (m % 1000), ?_, ?_⟩
      · rw [if_neg hms, List.cons_append]
      · rw [splitOnce_append _ hdot]
        dsimp only
        rw [parseI64_padInt 3 (by omega) (by omega), Option.map_some,
          Int64.toInt_ofInt_of_le (by omega) (by omega)]
  obtain ⟨t, ht, htime⟩ := hfraction
  have htext : millisToIso m = (isoDate (civilFromDays (m / 1000 / 86400)) ++ 'T' ::
      (isoTime (m / 1000 % 86400) ++ t)) ++ ['Z'] := by
    rw [millisToIso_eq, ht]
    simp
  have hdate : splitDate (isoDate (civilFromDays (m / 1000 / 86400)))
      = some ((partsOf m).year, (partsOf m).month, (partsOf m).day) :=
    splitDate_append _ (minus_not_mem_padInt (by omega)) (minus_not_mem_padInt (by omega))
  have hhms : (isoTime (m / 1000 % 86400)).splitOn ':'
      = [(partsOf m).hour, (partsOf m).minute, (partsOf m).second] := by
    have hcolon (v : Int) : ':' ∉ padInt 2 v := hsep ':' rfl (by decide) 2 v
    exact splitOn_three (hcolon _) (hcolon _) (hcolon _)
  unfold isoParts
  rw [htext, stripSuffix_append, Option.bind_some, splitOnce_append _ (T_not_mem_isoDate _),
    Option.bind_eq_bind, Option.bind_some]
  simp only [hdate, htime, hhms, Option.bind_eq_bind, Option.bind_some]
  rfl

/-- A rendering has no blanks around it. -/
theorem trim_millisToIso : trim (millisToIso m) = millisToIso m := by
  have hends : ∃ t, millisToIso m = padInt 4 (civilFromDays (m / 1000 / 86400)).1 ++ (t ++ ['Z']) := by
    rw [millisToIso_eq, isoDate, isoFraction]
    by_cases hms : m % 1000 = 0
    · refine ⟨'-' :: padInt 2 (civilFromDays (m / 1000 / 86400)).2.1 ++
        '-' :: padInt 2 (civilFromDays (m / 1000 / 86400)).2.2 ++
        'T' :: isoTime (m / 1000 % 86400), ?_⟩
      simp [hms]
    · refine ⟨'-' :: padInt 2 (civilFromDays (m / 1000 / 86400)).2.1 ++
        '-' :: padInt 2 (civilFromDays (m / 1000 / 86400)).2.2 ++
        'T' :: isoTime (m / 1000 % 86400) ++ '.' :: padInt 3 (m % 1000), ?_⟩
      simp [hms]
  obtain ⟨t, ht⟩ := hends
  refine trim_eq_self ?_ ?_
  · rw [ht]
    intro c hc
    cases hyear : padInt 4 (civilFromDays (m / 1000 / 86400)).1 with
    | nil => exact absurd hyear (padInt_ne_nil _ _)
    | cons d ds =>
      rw [hyear, List.cons_append, List.head?_cons, Option.mem_some_iff] at hc
      subst hc
      exact isWhitespace_of_digit_or_minus (digit_or_minus_of_mem_padInt (hyear ▸ List.mem_cons_self))
  · rw [ht, ← List.append_assoc, List.getLast?_concat]
    intro c hc
    obtain rfl := Option.mem_some_iff.mp hc
    rfl

theorem daysFromCivilTrunc_eq {y m d : Int} (hm : 1 ≤ m) :
    daysFromCivilTrunc y m d = daysFromCivil y m d := by
  unfold daysFromCivilTrunc daysFromCivil
  dsimp only
  generalize (if m ≤ 2 then y - 1 else y) = y'
  have hmp : 0 ≤ (if m > 2 then m - 3 else m + 9) := by omega
  generalize (if m > 2 then m - 3 else m + 9) = mp at hmp ⊢
  have hera : (if y' ≥ 0 then y' else y' - 399).tdiv 400 = y' / 400 := tdiv_era y'
  have hyoe : y' - y' / 400 * 400 = y' % 400 := by omega
  rw [hera, hyoe, Int.tdiv_eq_ediv_of_nonneg (by omega), Int.tdiv_eq_ediv_of_nonneg (by omega),
    Int.tdiv_eq_ediv_of_nonneg (by omega)]

/-- The year of a day that fits is far from the ends of an `i64`. -/
theorem year_bounds (days : Int) (h : -2 ^ 40 < days) (h' : days < 2 ^ 40) :
    -2 ^ 40 < (civilFromDays days).1 ∧ (civilFromDays days).1 < 2 ^ 40 := by
  obtain ⟨⟨hy0, hy1⟩, -⟩ := civilFromDays_parts days
  have hera := eraOf_eq (days + 719468)
  simp only [civilFromDays, dateOfYearDay]
  split <;> omega

/-- The first instant whose whole seconds, in milliseconds, are an `i64`. -/
def firstParsed : Int := -9223372036854775000

/-- **The instant of a rendering's parts**, unless its whole seconds are too early. -/
theorem millis_partsOf (hlo : -2 ^ 63 ≤ m) (hhi : m < 2 ^ 63) :
    (partsOf m).millis = if firstParsed ≤ m then some m else none := by
  obtain ⟨hmonth, hmonth', hday, hday'⟩ := civilFromDays_bounds (m / 1000 / 86400)
  have hyear := year_bounds (m / 1000 / 86400) (by omega) (by omega)
  have hdays : daysFromCivilTrunc (civilFromDays (m / 1000 / 86400)).1
      (civilFromDays (m / 1000 / 86400)).2.1 (civilFromDays (m / 1000 / 86400)).2.2
        = m / 1000 / 86400 := by
    rw [daysFromCivilTrunc_eq hmonth, daysFromCivil_civilFromDays]
  have hsecs : m / 1000 / 86400 * 86400 + (m / 1000 % 86400 / 3600 * 3600
      + m / 1000 % 86400 % 3600 / 60 * 60 + m / 1000 % 86400 % 60) = m / 1000 := by omega
  unfold IsoParts.millis IsoParts.timeMillis partsOf
  dsimp only
  rw [datePart_padInt 4 (by omega) (by omega), Option.bind_some,
    datePart_padInt 2 (by omega) (by omega), Option.bind_some,
    datePart_padInt 2 (by omega) (by omega), Option.bind_some, hdays,
    inI64_eq (by omega) (by omega), Option.bind_some,
    datePart_padInt 2 (by omega) (by omega), Option.bind_some,
    datePart_padInt 2 (by omega) (by omega), Option.bind_some,
    datePart_padInt 2 (by omega) (by omega), Option.bind_some, hsecs,
    inI64_eq (by omega) (by omega), Option.bind_some]
  unfold firstParsed
  by_cases hfirst : -9223372036854775000 ≤ m
  · have hwhole : m / 1000 * 1000 + m % 1000 = m := by omega
    rw [if_pos hfirst, inI64_eq (by omega) (by omega), Option.bind_some, hwhole,
      inI64_eq (by omega) (by omega)]
  · have hover : inI64 (m / 1000 * 1000) = none := if_neg (by omega)
    rw [if_neg hfirst, hover, Option.bind_none]

theorem readsMin_eq_false {ts : List Text} (h : ∀ t ∈ ts, parseI64 t ≠ some Int64.minValue) :
    readsMin ts = false := by
  induction ts with
  | nil => rfl
  | cons t ts ih =>
    have hrest : readsMin ts = false := ih fun u hu => h u (List.mem_cons_of_mem t hu)
    simp [readsMin, hrest, h t List.mem_cons_self]

/-- No number of a rendering is `i64::MIN`. -/
theorem overflows_partsOf (hlo : -2 ^ 63 ≤ m) (hhi : m < 2 ^ 63) :
    (partsOf m).overflows = false := by
  obtain ⟨hmonth, hmonth', hday, hday'⟩ := civilFromDays_bounds (m / 1000 / 86400)
  have hyear := year_bounds (m / 1000 / 86400) (by omega) (by omega)
  have hne (w : Nat) {v : Int} (hv : -2 ^ 40 < v) (hv' : v < 2 ^ 40) :
      parseI64 (padInt w v) ≠ some Int64.minValue := by
    rw [parseI64_padInt w (by omega) (by omega)]
    intro h
    have hmin := congrArg Int64.toInt (Option.some.inj h)
    rw [Int64.toInt_ofInt_of_le (by omega) (by omega), toInt_minValue] at hmin
    omega
  have hdate : readsMin [(partsOf m).year, (partsOf m).month, (partsOf m).day] = false := by
    apply readsMin_eq_false
    simp only [List.mem_cons, List.not_mem_nil, or_false, forall_eq_or_imp, forall_eq]
    exact ⟨hne 4 (by omega) (by omega), hne 2 (by omega) (by omega), hne 2 (by omega) (by omega)⟩
  have htime : readsMin [(partsOf m).hour, (partsOf m).minute, (partsOf m).second] = false := by
    apply readsMin_eq_false
    simp only [List.mem_cons, List.not_mem_nil, or_false, forall_eq_or_imp, forall_eq]
    exact ⟨hne 2 (by omega) (by omega), hne 2 (by omega) (by omega), hne 2 (by omega) (by omega)⟩
  unfold IsoParts.overflows
  rw [hdate, htime]
  split <;> simp

/-- **A rendering is read back**, unless its whole seconds are too early. -/
theorem checked_parse_millisToIso (m : Int64) :
    Checked.parseIsoMillis (millisToIso m.toInt)
      = Checked.given (if firstParsed ≤ m.toInt then some m else none) := by
  have hlo := m.le_toInt
  have hhi := m.toInt_lt
  rw [checked_parseIsoMillis, parseIsoMillis_eq, trim_millisToIso, isoParts_millisToIso,
    Option.any_some, overflows_partsOf _ hlo hhi, if_neg Bool.false_ne_true, Option.bind_some,
    millis_partsOf _ hlo hhi]
  by_cases hfirst : firstParsed ≤ m.toInt
  · rw [if_pos hfirst, if_pos hfirst, Option.bind_some, if_pos rfl, Int64.ofInt_toInt]
  · rw [if_neg hfirst, if_neg hfirst, Option.bind_none]

end Rendering

/-- What is said of an instant: it is written as its ISO text, that text is read back, and no other
    text but for blanks is read as it; all without an overflow. -/
def RendersAndParses (m : Int64) : Prop :=
  ∃ text, Checked.millisToIso m = some text ∧ IsIso m.toInt text
    ∧ Checked.parseIsoMillis text = Checked.given (some m)
    ∧ ∀ text', Checked.parseIsoMillis text' = Checked.given (some m) → trim text' = text

/-- A text that is read comes to the rendering of what it is read as. -/
theorem trim_of_parseIsoMillis {text : Text} {m : Int64}
    (h : Checked.parseIsoMillis text = Checked.given (some m)) :
    trim text = millisToIso m.toInt := by
  rw [checked_parseIsoMillis] at h
  by_cases hover : (isoParts (trim text)).any IsoParts.overflows = true
  · rw [if_pos hover] at h
    cases h
  rw [if_neg hover, parseIsoMillis_eq] at h
  have hparse := Option.some.inj h
  obtain ⟨v, hv, hshown⟩ := Option.bind_eq_some_iff.mp hparse
  obtain ⟨p, -, hp⟩ := Option.bind_eq_some_iff.mp hv
  by_cases htext : millisToIso v = trim text
  · rw [if_pos htext] at hshown
    rw [← htext, ← Option.some.inj hshown, IsoParts.toInt_millis hp]
  · rw [if_neg htext] at hshown
    cases hshown

/-- **Dates as text and back**: every instant from `firstParsed` on is written and read back, and no
    earlier one; reading a text overflows when it comes to a number that is `i64::MIN`. -/
theorem dates_render_and_parse_iff (m : Int64) (text : Text) :
    (RendersAndParses m ↔ firstParsed ≤ m.toInt)
      ∧ (Checked.parseIsoMillis text = Checked.abort
        ↔ (isoParts (trim text)).any IsoParts.overflows = true) := by
  refine ⟨⟨fun ⟨text, hwrite, _, hread, _⟩ => ?_, fun hfirst => ?_⟩, ?_⟩
  · obtain rfl := Option.some.inj ((checked_millisToIso m).symm.trans hwrite)
    rw [checked_parse_millisToIso] at hread
    by_contra hearly
    rw [if_neg hearly] at hread
    cases hread
  · refine ⟨millisToIso m.toInt, checked_millisToIso m, isIso_millisToIso _, ?_, ?_⟩
    · rw [checked_parse_millisToIso, if_pos hfirst]
    · intro text' h
      exact trim_of_parseIsoMillis h
  · rw [checked_parseIsoMillis]
    by_cases hover : (isoParts (trim text)).any IsoParts.overflows = true
    · simp [hover]
    · simp only [hover, Bool.false_eq_true, ↓reduceIte, iff_false]
      intro h
      cases h

/-- The earliest instant is written, and its text is refused. -/
theorem parseIsoMillis_earliest :
    Checked.millisToIso Int64.minValue = some "-292275055-05-16T16:47:04.192Z".toList
      ∧ Checked.parseIsoMillis "-292275055-05-16T16:47:04.192Z".toList = Checked.given none
      ∧ ¬ RendersAndParses Int64.minValue := by
  have hwrite : Checked.millisToIso Int64.minValue
      = some "-292275055-05-16T16:47:04.192Z".toList := by decide +kernel
  have hread : (Checked.parseIsoMillis "-292275055-05-16T16:47:04.192Z".toList).run
      = some none := by decide +kernel
  refine ⟨hwrite, hread, ?_⟩
  rintro ⟨text, htext, -, hparse, -⟩
  obtain rfl := Option.some.inj (hwrite.symm.trans htext)
  have hrun : some none = some (some Int64.minValue) := hread.symm.trans hparse
  cases hrun

/-- The absolute value of `i64::MIN` overflows. -/
example : (Checked.parseIsoMillis "-9223372036854775808-01-01T00:00:00Z".toList).run = none := by
  decide +kernel

end FlinkExplorer
