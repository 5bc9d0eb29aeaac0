import Mathlib.Tactic.Common
import Mathlib.Tactic.IntervalCases

namespace FlinkExplorer.Lib

/-!
# The proleptic Gregorian calendar

Dates are counted in eras of 400 years that start on 1 March, so that the leap day is the last
day of a year:

* `civilFromDays` — year, month and day from the days since 1970-01-01;
* `daysFromCivil` — the days back from year, month and day;
* `daysFromCivil_civilFromDays` — the second undoes the first, so a date tells its day;
* `dayNumber`, `IsDate` — the calendar by its years and months, leap years included;
* `isDate_civilFromDays`, `dayNumber_civilFromDays` — the date of a day is the calendar's.
-/

/-- The era of a day counted from 0000-03-01, rounded down. -/
def eraOf (days : Int) : Int := (if days ≥ 0 then days else days - 146096).tdiv 146097

/-- The year of its era a day is in, from the day of the era. -/
def yearOfEra (doe : Int) : Int := (doe - doe / 1460 + doe / 36524 - doe / 146096) / 365

/-- The day of its year, from the day and the year of the era. -/
def dayOfYear (doe yoe : Int) : Int := doe - (365 * yoe + yoe / 4 - yoe / 100)

/-- The date of a day counted from 1 March of the year `y`. -/
def dateOfYearDay (y doy : Int) : Int × Int × Int :=
  let mp := (5 * doy + 2) / 153
  let d := doy - (153 * mp + 2) / 5 + 1
  let m := if mp < 10 then mp + 3 else mp - 9
  (if m ≤ 2 then y + 1 else y, m, d)

/-- The proleptic Gregorian `(year, month, day)` of a number of days since 1970-01-01. -/
def civilFromDays (days : Int) : Int × Int × Int :=
  let days := days + 719468
  let era := eraOf days
  let doe := days - era * 146097
  let yoe := yearOfEra doe
  let y := yoe + era * 400
  let doy := dayOfYear doe yoe
  dateOfYearDay y doy

/-- The days since 1970-01-01 of a proleptic Gregorian date. -/
def daysFromCivil (y m d : Int) : Int :=
  let y := if m ≤ 2 then y - 1 else y
  let era := y / 400
  let yoe := y % 400
  let mp := if m > 2 then m - 3 else m + 9
  let doy := (153 * mp + 2) / 5 + d - 1
  let doe := yoe * 365 + yoe / 4 - yoe / 100 + doy
  era * 146097 + doe - 719468

theorem eraOf_eq (days : Int) : eraOf days = days / 146097 := by
  unfold eraOf
  split
  · rw [Int.tdiv_eq_ediv_of_nonneg (by omega)]
  · -- Truncation rounds towards zero, so a negative day is moved to the start of its era first.
    rw [← Int.neg_neg (days - 146096), Int.neg_tdiv, Int.tdiv_eq_ediv_of_nonneg (by omega)]
    omega

theorem yearOfEra_bounds {doe : Int} (h0 : 0 ≤ doe) (h1 : doe < 146097) :
    0 ≤ yearOfEra doe ∧ yearOfEra doe < 400 := by
  unfold yearOfEra
  omega

/-- A day of an era as its century, four-year cycle and day of that cycle. -/
theorem day_split {doe : Int} (h0 : 0 ≤ doe) (h1 : doe < 146096) :
    ∃ d q s : Int, doe = 36524 * d + 1461 * q + s ∧ 0 ≤ d ∧ d ≤ 3 ∧ 0 ≤ q ∧ q ≤ 24 ∧ 0 ≤ s ∧
      s ≤ 1460 ∧ 1461 * q + s ≤ 36523 :=
  ⟨doe / 36524, doe % 36524 / 1461, doe % 36524 % 1461, by omega, by omega, by omega, by omega,
    by omega, by omega, by omega, by omega⟩

theorem dayOfYear_bounds {doe : Int} (h0 : 0 ≤ doe) (h1 : doe < 146097) :
    0 ≤ dayOfYear doe (yearOfEra doe) ∧ dayOfYear doe (yearOfEra doe) ≤ 365 := by
  unfold dayOfYear
  obtain ⟨yoe, hy⟩ : ∃ yoe, yoe = yearOfEra doe := ⟨_, rfl⟩
  rw [← hy]
  unfold yearOfEra at hy
  by_cases hlast : doe = 146096
  · -- The leap day that ends the era.
    subst hlast
    omega
  · obtain ⟨d, q, s, hdoe, hd0, hd3, hq0, hq24, hs0, hs, hr⟩ := day_split h0 (by omega)
    have h36524 : doe / 36524 = d := by omega
    have h146096 : doe / 146096 = 0 := by omega
    have h1460 : doe / 1460 = 25 * d + q + if 24 * d + q + s ≥ 1460 then 1 else 0 := by
      split <;> omega
    rw [h36524, h146096, h1460] at hy
    obtain ⟨t, ht⟩ : ∃ t, t = (s - if 24 * d + q + s ≥ 1460 then 1 else 0) / 365 := ⟨_, rfl⟩
    have hyoe : yoe = 100 * d + 4 * q + t := by
      split at ht <;> split at hy <;> omega
    have ht3 : 0 ≤ t ∧ t ≤ 3 := by split at ht <;> omega
    have h4 : yoe / 4 = 25 * d + q := by omega
    have h100 : yoe / 100 = d := by omega
    split at ht <;> omega

/-- What a date is made of: a month, and a day of it. -/
theorem dateOfYearDay_bounds {y doy : Int} (h0 : 0 ≤ doy) (h1 : doy ≤ 365) :
    1 ≤ (dateOfYearDay y doy).2.1 ∧ (dateOfYearDay y doy).2.1 ≤ 12 ∧
      1 ≤ (dateOfYearDay y doy).2.2 ∧ (dateOfYearDay y doy).2.2 ≤ 31 := by
  simp only [dateOfYearDay]
  split <;> omega

theorem daysFromCivil_dateOfYearDay {y doy : Int} (h0 : 0 ≤ doy) (h1 : doy ≤ 365) :
    daysFromCivil (dateOfYearDay y doy).1 (dateOfYearDay y doy).2.1 (dateOfYearDay y doy).2.2
      = y / 400 * 146097 + (y % 400 * 365 + y % 400 / 4 - y % 400 / 100 + doy) - 719468 := by
  obtain ⟨mp, hmp⟩ : ∃ mp, (5 * doy + 2) / 153 = mp := ⟨_, rfl⟩
  simp only [dateOfYearDay, daysFromCivil, hmp]
  by_cases hm : mp < 10
  · -- March to December.
    rw [if_pos hm, if_neg (show ¬ mp + 3 ≤ 2 by omega), if_neg (show ¬ mp + 3 ≤ 2 by omega),
      if_pos (show mp + 3 > 2 by omega)]
    have : mp + 3 - 3 = mp := by omega
    rw [this]
    omega
  · -- January and February belong to the year before.
    rw [if_neg hm, if_pos (show mp - 9 ≤ 2 by omega), if_pos (show mp - 9 ≤ 2 by omega),
      if_neg (show ¬ mp - 9 > 2 by omega)]
    have : mp - 9 + 9 = mp := by omega
    rw [this, Int.add_sub_cancel]
    omega

section CivilFromDays

variable (days : Int)

/-- The day of the era, the year of the era and the day of the year are in range. -/
theorem civilFromDays_parts :
    let doe := days + 719468 - eraOf (days + 719468) * 146097
    (0 ≤ yearOfEra doe ∧ yearOfEra doe < 400) ∧
      0 ≤ dayOfYear doe (yearOfEra doe) ∧ dayOfYear doe (yearOfEra doe) ≤ 365 := by
  have hera := eraOf_eq (days + 719468)
  intro doe
  have h0 : 0 ≤ doe := by omega
  have h1 : doe < 146097 := by omega
  exact ⟨yearOfEra_bounds h0 h1, dayOfYear_bounds h0 h1⟩

theorem civilFromDays_bounds :
    1 ≤ (civilFromDays days).2.1 ∧ (civilFromDays days).2.1 ≤ 12 ∧
      1 ≤ (civilFromDays days).2.2 ∧ (civilFromDays days).2.2 ≤ 31 := by
  obtain ⟨-, h0, h1⟩ := civilFromDays_parts days
  exact dateOfYearDay_bounds h0 h1

/-- **A date tells its day.** -/
theorem daysFromCivil_civilFromDays :
    daysFromCivil (civilFromDays days).1 (civilFromDays days).2.1 (civilFromDays days).2.2
      = days := by
  obtain ⟨⟨hy0, hy1⟩, h0, h1⟩ := civilFromDays_parts days
  refine (daysFromCivil_dateOfYearDay h0 h1).trans ?_
  obtain ⟨doe, hdoe⟩ : ∃ doe, doe = days + 719468 - eraOf (days + 719468) * 146097 := ⟨_, rfl⟩
  rw [← hdoe] at hy0 hy1 ⊢
  obtain ⟨yoe, hyoe⟩ : ∃ yoe, yoe = yearOfEra doe := ⟨_, rfl⟩
  rw [← hyoe] at hy0 hy1 ⊢
  unfold dayOfYear
  have hdiv : (yoe + eraOf (days + 719468) * 400) / 400 = eraOf (days + 719468) := by omega
  have hmod : (yoe + eraOf (days + 719468) * 400) % 400 = yoe := by omega
  rw [hdiv, hmod]
  omega

end CivilFromDays

theorem civilFromDays_inj {a b : Int} (h : civilFromDays a = civilFromDays b) : a = b := by
  rw [← daysFromCivil_civilFromDays a, h, daysFromCivil_civilFromDays]

/-! ### Years and months -/

/-- A leap year of the proleptic Gregorian calendar. -/
def IsLeap (y : Int) : Prop := y % 4 = 0 ∧ (y % 100 ≠ 0 ∨ y % 400 = 0)

instance (y : Int) : Decidable (IsLeap y) := inferInstanceAs (Decidable (_ ∧ _))

def daysInMonth (y m : Int) : Int :=
  if m = 2 then if IsLeap y then 29 else 28
  else if m = 4 ∨ m = 6 ∨ m = 9 ∨ m = 11 then 30
  else 31

/-- The leap days before 1 January of a year, from year 1 on. -/
def leapDaysBefore (y : Int) : Int := (y - 1) / 4 - (y - 1) / 100 + (y - 1) / 400

/-- The days from 1970-01-01 to 1 January of a year. -/
def yearStart (y : Int) : Int := 365 * (y - 1970) + leapDaysBefore y - leapDaysBefore 1970

/-- The days of a year before the first of a month. -/
def monthStart (y : Int) : Nat → Int
  | 0 => 0
  | m + 1 => monthStart y m + if m = 0 then 0 else daysInMonth y m

/-- The days from 1970-01-01 to a date. -/
def dayNumber (y m d : Int) : Int := yearStart y + monthStart y m.toNat + (d - 1)

/-- The days from 1970-01-01 to 1 March of a year. -/
def marchStart (y : Int) : Int := 365 * y + y / 4 - y / 100 + y / 400 - 719468

theorem daysFromCivil_eq_march (y m d : Int) :
    daysFromCivil y m d = marchStart (if m ≤ 2 then y - 1 else y)
      + (153 * (if m > 2 then m - 3 else m + 9) + 2) / 5 + (d - 1) := by
  unfold daysFromCivil marchStart
  dsimp only
  generalize (if m ≤ 2 then y - 1 else y) = y'
  generalize (153 * (if m > 2 then m - 3 else m + 9) + 2) / 5 = days
  omega

/-- January and February count with the year before. -/
theorem yearStart_eq_march (y : Int) : yearStart y = marchStart (y - 1) + 306 := by
  unfold yearStart leapDaysBefore marchStart
  omega

theorem marchStart_eq (y : Int) :
    marchStart y = yearStart y + 59 + if IsLeap y then 1 else 0 := by
  unfold yearStart leapDaysBefore marchStart
  by_cases hleap : IsLeap y
  · rw [if_pos hleap]
    unfold IsLeap at hleap
    omega
  · rw [if_neg hleap]
    unfold IsLeap at hleap
    omega

/-- **The days of a date**, counted by the years and months before it. -/
theorem daysFromCivil_eq {y m d : Int} (h1 : 1 ≤ m) (h12 : m ≤ 12) :
    daysFromCivil y m d = dayNumber y m d := by
  rw [daysFromCivil_eq_march]
  unfold dayNumber
  by_cases hm : m ≤ 2
  · rw [if_pos hm, if_neg (by omega), yearStart_eq_march]
    obtain rfl | rfl : m = 1 ∨ m = 2 := by omega
    · simp [monthStart]
    · simp [monthStart, daysInMonth]
      omega
  · rw [if_neg hm, if_pos (by omega), marchStart_eq]
    have hfebruary : daysInMonth y 2 = 28 + if IsLeap y then 1 else 0 := by
      rw [daysInMonth, if_pos rfl]
      split <;> rfl
    have hlong (k : Int) (hk : k ≠ 2) (hshort : ¬ (k = 4 ∨ k = 6 ∨ k = 9 ∨ k = 11)) :
        daysInMonth y k = 31 := by
      rw [daysInMonth, if_neg hk, if_neg hshort]
    have hshort (k : Int) (hk : k ≠ 2) (hshort : k = 4 ∨ k = 6 ∨ k = 9 ∨ k = 11) :
        daysInMonth y k = 30 := by
      rw [daysInMonth, if_neg hk, if_pos hshort]
    interval_cases m <;> simp [monthStart, hfebruary, hlong, hshort] <;> omega

/-- The day of the year goes up to 365 in a leap year only. -/
theorem isLeap_of_dayOfYear {doe : Int} (h0 : 0 ≤ doe) (h1 : doe < 146097)
    (hlast : dayOfYear doe (yearOfEra doe) = 365) : IsLeap (yearOfEra doe + 1) := by
  unfold dayOfYear at hlast
  obtain ⟨yoe, hy⟩ : ∃ yoe, yoe = yearOfEra doe := ⟨_, rfl⟩
  rw [← hy] at hlast ⊢
  unfold yearOfEra at hy
  unfold IsLeap
  by_cases hend : doe = 146096
  · -- The leap day that ends the era.
    subst hend
    omega
  · obtain ⟨d, q, s, hdoe, hd0, hd3, hq0, hq24, hs0, hs, hr⟩ := day_split h0 (by omega)
    have h36524 : doe / 36524 = d := by omega
    have h146096 : doe / 146096 = 0 := by omega
    have h1460 : doe / 1460 = 25 * d + q + if 24 * d + q + s ≥ 1460 then 1 else 0 := by
      split <;> omega
    rw [h36524, h146096, h1460] at hy
    obtain ⟨t, ht⟩ : ∃ t, t = (s - if 24 * d + q + s ≥ 1460 then 1 else 0) / 365 := ⟨_, rfl⟩
    have hyoe : yoe = 100 * d + 4 * q + t := by
      split at ht <;> split at hy <;> omega
    have ht3 : 0 ≤ t ∧ t ≤ 3 := by split at ht <;> omega
    have h4 : yoe / 4 = 25 * d + q := by omega
    have h100 : yoe / 100 = d := by omega
    have hs365 : s = 365 * (t + 1) := by omega
    -- The day is the last of its four-year cycle, which is not the last of the century.
    have hlate : 24 * d + q + s ≥ 1460 := by
      by_contra hearly
      rw [if_neg hearly] at ht
      omega
    have ht3' : t = 3 := by omega
    have hq : q ≤ 23 := by omega
    have hnext : yoe + 1 = 100 * d + (4 * q + 4) := by omega
    have hmod : (yoe + 1) % 100 = 4 * q + 4 := by omega
    exact ⟨by omega, .inl (by omega)⟩

/-- A date of the calendar: a month of the year, a day of the month. -/
def IsDate (date : Int × Int × Int) : Prop :=
  (1 ≤ date.2.1 ∧ date.2.1 ≤ 12) ∧ 1 ≤ date.2.2 ∧ date.2.2 ≤ daysInMonth date.1 date.2.1

theorem isDate_dateOfYearDay {y doy : Int} (h0 : 0 ≤ doy) (h1 : doy ≤ 365)
    (hlast : doy = 365 → IsLeap (y + 1)) : IsDate (dateOfYearDay y doy) := by
  unfold IsDate dateOfYearDay
  obtain ⟨mp, hmp⟩ : ∃ mp, (5 * doy + 2) / 153 = mp := ⟨_, rfl⟩
  have hmp0 : 0 ≤ mp := by omega
  have hmp11 : mp ≤ 11 := by omega
  simp only [hmp]
  by_cases hleap : IsLeap (y + 1)
  · interval_cases mp <;> simp [daysInMonth, hleap] <;> omega
  · have hshort : doy < 365 := by
      by_contra h
      exact hleap (hlast (by omega))
    interval_cases mp <;> simp [daysInMonth, hleap] <;> omega

/-- **The date of a day is one of the calendar.** -/
theorem isDate_civilFromDays (days : Int) : IsDate (civilFromDays days) := by
  obtain ⟨-, h0, h1⟩ := civilFromDays_parts days
  have hera := eraOf_eq (days + 719468)
  refine isDate_dateOfYearDay h0 h1 fun hlast => ?_
  obtain ⟨h4, h100⟩ := isLeap_of_dayOfYear (by omega) (by omega) hlast
  exact ⟨by omega, by omega⟩

/-- **The date of a day has that number.** -/
theorem dayNumber_civilFromDays (days : Int) :
    dayNumber (civilFromDays days).1 (civilFromDays days).2.1 (civilFromDays days).2.2 = days := by
  obtain ⟨h1, h12, -⟩ := civilFromDays_bounds days
  exact (daysFromCivil_eq h1 h12).symm.trans (daysFromCivil_civilFromDays days)

end FlinkExplorer.Lib
