import EventServer.Common.Date
import EventServer.Support.Gregorian

/-!
# Dates are dates of the Gregorian calendar

The Julian day numbers of `Date.cc` count the days of the Gregorian calendar:
the conversions from and to them agree with the numbering of its dates.
-/

namespace EventServer.Common

open EventServer.Support

/-- A date as the class holds it. -/
def YearMonthDay.ofDate (a : CalendarDate) : YearMonthDay :=
  ⟨a.year, a.month, a.day⟩

/-- The Julian day number of 1 March of the year 0. -/
def kJulianDayOfYearZero : ℤ := 1721120

/-- The Julian day number of a date. -/
def julianDay (a : CalendarDate) : ℤ := a.number + kJulianDayOfYearZero

variable {a : CalendarDate}

theorem julianDay_next (h : a.Valid) : julianDay a.next = julianDay a + 1 := by
  rw [julianDay, julianDay, h.number_next]
  ring

/-- A date inside the calendar lies in a year that starts in March, from -4800
on. -/
theorem marchYear_ge (h : a.Valid) (hlow : -32044 ≤ julianDay a) :
    -4800 ≤ a.marchYear := by
  obtain ⟨-, hlength⟩ := h.marchDay_bounds
  have hsucc := CalendarDate.daysBeforeYear_succ a.marchYear
  by_contra hyear
  have hmono := CalendarDate.daysBeforeYear_mono
    (show a.marchYear + 1 ≤ -4800 by omega)
  have hstart : CalendarDate.daysBeforeYear (-4800) = -1753164 := by decide
  unfold julianDay CalendarDate.number kJulianDayOfYearZero at hlow
  omega

theorem marchDay_le (h : a.Valid) : a.marchDay ≤ 365 := by
  obtain ⟨-, hlength⟩ := h.marchDay_bounds
  unfold CalendarDate.marchYearLength at hlength
  split at hlength
  · omega
  · omega

/-- The days before a year, by its century and its year of the century. -/
theorem daysBeforeYear_eq {b d : ℤ} (hd0 : 0 ≤ d) (hd1 : d ≤ 99) :
    CalendarDate.daysBeforeYear (b * 100 + d) =
      146097 * b / 4 + 1461 * d / 4 := by
  have hcentury : (b * 100 + d) / 100 = b := by omega
  have hfour : (b * 100 + d) / 400 = b / 4 := by omega
  have hleap : (b * 100 + d) / 4 = 25 * b + d / 4 := by omega
  have hcenturies : 146097 * b / 4 = 36524 * b + b / 4 := by omega
  have hyears : 1461 * d / 4 = 365 * d + d / 4 := by omega
  rw [CalendarDate.daysBeforeYear, hcentury, hfour, hleap, hcenturies, hyears]
  ring

/-- The century and the year of the century of a date, counted from -4800
on. -/
structure CenturyOf (a : CalendarDate) (b d : ℤ) : Prop where
  year_eq : a.marchYear = b * 100 + d - 4800
  year_nonneg : 0 ≤ d
  year_le : d ≤ 99

theorem exists_centuryOf (a : CalendarDate) : ∃ b d, CenturyOf a b d :=
  ⟨(a.marchYear + 4800) / 100, (a.marchYear + 4800) % 100, by omega, by omega,
    by omega⟩

theorem CenturyOf.julianDay_eq {b d : ℤ} (hyear : CenturyOf a b d) :
    julianDay a + 32044 = 146097 * b / 4 + 1461 * d / 4 + a.marchDay := by
  have hshift : CalendarDate.daysBeforeYear (b * 100 + d) =
      CalendarDate.daysBeforeYear a.marchYear + 1753164 := by
    rw [hyear.year_eq]
    unfold CalendarDate.daysBeforeYear
    omega
  rw [← daysBeforeYear_eq hyear.year_nonneg hyear.year_le, hshift, julianDay,
    CalendarDate.number, kJulianDayOfYearZero]
  ring

/-- The last day of a long year, in the pattern of the divisions. -/
theorem CenturyOf.leap {b d : ℤ} (hyear : CenturyOf a b d) (h : a.Valid)
    (hlast : a.marchDay = 365) : d % 4 = 3 ∧ (d = 99 → b % 4 = 3) := by
  obtain ⟨-, hlength⟩ := h.marchDay_bounds
  have hyear0 := hyear.year_nonneg
  have hyear1 := hyear.year_le
  have hleap : CalendarDate.IsLeapYear (a.marchYear + 1) := by
    by_contra hnot
    rw [CalendarDate.marchYearLength, if_neg hnot] at hlength
    omega
  rw [hyear.year_eq] at hleap
  obtain ⟨hfour, hcentury⟩ := hleap
  omega

/-- The parts of a date that the conversions compute. -/
theorem CenturyOf.civil {b d : ℤ} (hyear : CenturyOf a b d) (h : a.Valid)
    (hj : InCalendar (julianDay a)) :
    Civil (julianDay a) b d a.marchDay a.marchMonth := by
  obtain ⟨hlow, hhigh⟩ := hj
  have hjulian := hyear.julianDay_eq
  have hstart := marchYear_ge h hlow
  rw [hyear.year_eq] at hstart
  have hyear0 := hyear.year_nonneg
  have hyear1 := hyear.year_le
  obtain ⟨hday0, -⟩ := h.marchDay_bounds
  have hday1 := marchDay_le h
  refine ⟨by omega, by omega, hyear0, hyear1, hday0, hday1, ?_, hjulian⟩
  obtain ⟨hmonth0, hmonth1⟩ := h.marchMonth_bounds
  have hfirst := h.one_le_day
  have hlast := h.day_le
  by_cases hmonth : a.month = 2
  · obtain ⟨-, hmarch, -⟩ := CalendarDate.february_eq hmonth
    unfold CalendarDate.marchDay at hday1 ⊢
    omega
  · have hdays := h.daysInMonth_eq hmonth
    unfold CalendarDate.marchDay
    omega

theorem CenturyOf.divisions {b d : ℤ} (hyear : CenturyOf a b d)
    (h : a.Valid) (hj : InCalendar (julianDay a)) :
    Divisions (julianDay a) b (1461 * d / 4 + a.marchDay) d a.marchDay
      a.marchMonth := by
  have hcivil := hyear.civil h hj
  have hjulian := hyear.julianDay_eq
  have hleap := hyear.leap h
  have hb0 := hcivil.century_nonneg
  have hd0 := hcivil.year_nonneg
  have hd1 := hcivil.year_le
  have he0 := hcivil.day_nonneg
  have he1 := hcivil.day_le
  have hm0 := hcivil.month_nonneg
  constructor
  · rw [Int.tdiv_eq_ediv_of_nonneg (by omega)]
    omega
  · rw [Int.tdiv_eq_ediv_of_nonneg (by positivity)]
    omega
  · rw [Int.tdiv_eq_ediv_of_nonneg (by omega)]
    omega
  · rw [Int.tdiv_eq_ediv_of_nonneg (by positivity)]
    omega
  · rw [Int.tdiv_eq_ediv_of_nonneg (by positivity), ← hcivil.month_eq]
  · exact Int.tdiv_eq_ediv_of_nonneg (by positivity)
  · exact Int.tdiv_eq_ediv_of_nonneg hm0

/-- The date of the parts is the date. -/
theorem CenturyOf.date_eq {b d : ℤ} (hyear : CenturyOf a b d)
    (h : a.Valid) :
    b * 100 + d - 4800 + a.marchMonth / 10 = a.year ∧
      a.marchMonth + 3 - 12 * (a.marchMonth / 10) = a.month ∧
      a.marchDay - (153 * a.marchMonth + 2) / 5 + 1 = a.day := by
  have hlow := h.one_le_month
  have hhigh := h.month_le
  have heq := hyear.year_eq
  unfold CalendarDate.marchDay
  unfold CalendarDate.marchYear at heq
  unfold CalendarDate.marchMonth
  split at heq
  · rw [if_pos (by assumption)]
    omega
  · rw [if_neg (by assumption)]
    omega

/-- The conversions between a date inside the calendar and its Julian day
number. -/
theorem conversions (h : a.Valid) (hj : InCalendar (julianDay a)) :
    getYearMonthDay (julianDay a) = .ok (.ofDate a) ∧
      getJulianDayNumber a.year a.month a.day = .ok (julianDay a) := by
  obtain ⟨b, d, hyear⟩ := exists_centuryOf a
  have hcivil := hyear.civil h hj
  obtain ⟨heqYear, heqMonth, heqDay⟩ := hyear.date_eq h
  have hleap := hyear.leap h
  have hd0 := hcivil.year_nonneg
  have hd1 := hcivil.year_le
  have he0 := hcivil.day_nonneg
  have he1 := hcivil.day_le
  have hb1 := hcivil.century_le
  constructor
  · have hdate := getYearMonthDay_eq hj hcivil (hyear.divisions h hj)
      (by omega) (by omega) (by omega)
    rw [heqYear, heqMonth, heqDay] at hdate
    exact hdate
  · have hnumber := getJulianDayNumber_civil hcivil hj
    rw [heqYear, heqMonth, heqDay] at hnumber
    exact hnumber

/-! ## The dates inside the calendar -/

def firstDate : CalendarDate := ⟨-4800, 3, 1⟩

def lastDate : CalendarDate := ⟨1465102, 10, 18⟩

theorem firstDate_valid : firstDate.Valid :=
  ⟨by decide, by decide, by decide, by decide⟩

theorem lastDate_valid : lastDate.Valid :=
  ⟨by decide, by decide, by decide, by decide⟩

theorem inCalendar_iff (h : a.Valid) :
    InCalendar (julianDay a) ↔
      firstDate.fields ≤ a.fields ∧ a.fields ≤ lastDate.fields := by
  have hfirst : julianDay firstDate = -32044 := by decide
  have hlast : julianDay lastDate = 536838867 := by decide
  unfold julianDay at hfirst hlast
  rw [← not_lt, ← not_lt, ← h.number_lt_iff firstDate_valid,
    ← lastDate_valid.number_lt_iff h]
  unfold InCalendar julianDay
  omega

/-- Every Julian day number inside the calendar is the one of a date. -/
theorem exists_julianDay_eq {j : ℤ} (hj : InCalendar j) :
    ∃ a : CalendarDate, a.Valid ∧ julianDay a = j := by
  have hfirst : firstDate.number = -1753164 := by decide
  obtain ⟨hlow, -⟩ := hj
  obtain ⟨a, ha, hnumber⟩ :=
    firstDate_valid.exists_number_eq (k := j - kJulianDayOfYearZero)
      (by rw [hfirst, kJulianDayOfYearZero]; omega)
  refine ⟨a, ha, ?_⟩
  rw [julianDay, hnumber]
  ring

/-- The Julian day numbers of the source are those of the Gregorian calendar:
each of them inside the calendar is converted, without an overflow, to a date
that is converted back and that the date of the next number follows; and each
date inside the calendar is converted to a number that is converted back. -/
theorem gregorian_calendar :
    (∀ j, InCalendar j → ∃ a : CalendarDate, a.Valid ∧
      getYearMonthDay j = .ok (.ofDate a) ∧
      getJulianDayNumber a.year a.month a.day = .ok j ∧
      (j < 536838867 → getYearMonthDay (j + 1) = .ok (.ofDate a.next))) ∧
    getYearMonthDay kJulianDayOf1970_01_01 = .ok ⟨1970, 1, 1⟩ ∧
    getYearMonthDay 536838867 = .ok (.ofDate lastDate) ∧
    ∀ a : CalendarDate, a.Valid → firstDate.fields ≤ a.fields →
      a.fields ≤ lastDate.fields → ∃ j, InCalendar j ∧
        getJulianDayNumber a.year a.month a.day = .ok j ∧
        getYearMonthDay j = .ok (.ofDate a) := by
  refine ⟨?_, by decide, by decide, ?_⟩
  · intro j hj
    obtain ⟨a, ha, rfl⟩ := exists_julianDay_eq hj
    obtain ⟨hdate, hnumber⟩ := conversions ha hj
    refine ⟨a, ha, hdate, hnumber, ?_⟩
    intro hlt
    have hnext : InCalendar (julianDay a.next) := by
      rw [julianDay_next ha]
      have hlow := hj.1
      exact ⟨by omega, by omega⟩
    rw [← julianDay_next ha]
    exact (conversions ha.next hnext).1
  · intro a ha hfirst hlast
    have hj := (inCalendar_iff ha).mpr ⟨hfirst, hlast⟩
    obtain ⟨hdate, hnumber⟩ := conversions ha hj
    exact ⟨julianDay a, hj, hnumber, hdate⟩

end EventServer.Common
