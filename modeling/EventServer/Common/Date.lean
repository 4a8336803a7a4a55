import EventServer.Support.Machine

/-!
# Dates and Julian day numbers

The conversions of `Date.cc` between a day of the Gregorian calendar and its
Julian day number.  Every operation on `int` that could overflow is checked.
-/

namespace EventServer.Common

open EventServer.Support

/-- `Date::YearMonthDay`. -/
structure YearMonthDay where
  year : ℤ
  month : ℤ
  day : ℤ
  deriving DecidableEq, Repr

def getJulianDayNumber (year month day : ℤ) : Except Fault ℤ := do
  let a := (← int (14 - month)).tdiv 12
  let y ← int ((← int (year + 4800)) - a)
  let m ← int ((← int (month + (← int (12 * a)))) - 3)
  let days ← int (day + (← int ((← int (153 * m)) + 2)).tdiv 5)
  let days ← int (days + (← int (y * 365)))
  let days ← int (days + y.tdiv 4)
  let days ← int (days - y.tdiv 100)
  let days ← int (days + y.tdiv 400)
  int (days - 32045)

def getYearMonthDay (julianDayNumber : ℤ) : Except Fault YearMonthDay := do
  let a ← int (julianDayNumber + 32044)
  let b := (← int ((← int (4 * a)) + 3)).tdiv 146097
  let c ← int (a - (← int (b * 146097)).tdiv 4)
  let d := (← int ((← int (4 * c)) + 3)).tdiv 1461
  let e ← int (c - (← int (1461 * d)).tdiv 4)
  let m := (← int ((← int (5 * e)) + 2)).tdiv 153
  let day ← int ((← int (e - (← int ((← int (153 * m)) + 2)).tdiv 5)) + 1)
  let month ← int ((← int (m + 3)) - (← int (12 * m.tdiv 10)))
  let year ← int ((← int ((← int ((← int (b * 100)) + d)) - 4800)) + m.tdiv 10)
  return ⟨year, month, day⟩

def kJulianDayOf1970_01_01 : ℤ := 2440588

example : getJulianDayNumber 1970 1 1 = .ok kJulianDayOf1970_01_01 := by decide

/-! ## Days inside the calendar -/

/-- The day numbers on which the conversions do not overflow, from the first
day of March of the year -4800 on. -/
def InCalendar (julianDayNumber : ℤ) : Prop :=
  -32044 ≤ julianDayNumber ∧ julianDayNumber ≤ 536838867

/-- A day in terms of its century `b`, its year `d` in the century, its day `e`
in a year that starts in March, and its month `m` in this year. -/
structure Civil (j b d e m : ℤ) : Prop where
  century_nonneg : 0 ≤ b
  century_le : b ≤ 14699
  year_nonneg : 0 ≤ d
  year_le : d ≤ 99
  day_nonneg : 0 ≤ e
  day_le : e ≤ 365
  month_eq : m = (5 * e + 2) / 153
  day_eq : j + 32044 = 146097 * b / 4 + 1461 * d / 4 + e

theorem Civil.month_nonneg {j b d e m : ℤ} (h : Civil j b d e m) : 0 ≤ m := by
  have := h.day_nonneg
  have := h.month_eq
  omega

theorem Civil.month_le {j b d e m : ℤ} (h : Civil j b d e m) : m ≤ 11 := by
  have := h.day_le
  have := h.month_eq
  omega

/-- The divisions of `getYearMonthDay`, none of which has a negative
operand. -/
structure Divisions (j b c d e m : ℤ) : Prop where
  century : (4 * (j + 32044) + 3).tdiv 146097 = b
  dayOfCentury : j + 32044 - (b * 146097).tdiv 4 = c
  year : (4 * c + 3).tdiv 1461 = d
  dayOfYear : c - (1461 * d).tdiv 4 = e
  month : (5 * e + 2).tdiv 153 = m
  daysBefore : (153 * m + 2).tdiv 5 = (153 * m + 2) / 5
  calendarYear : m.tdiv 10 = m / 10

theorem exists_divisions {j : ℤ} (hj : InCalendar j) :
    ∃ b c d e m, Civil j b d e m ∧ Divisions j b c d e m ∧ 0 ≤ c ∧
      c ≤ 36524 ∧ b * 146097 ≤ 2147483647 := by
  obtain ⟨hlow, hhigh⟩ := hj
  obtain ⟨b, hb⟩ : ∃ b, b = (4 * (j + 32044) + 3) / 146097 := ⟨_, rfl⟩
  obtain ⟨c, hc⟩ : ∃ c, c = j + 32044 - b * 146097 / 4 := ⟨_, rfl⟩
  obtain ⟨d, hd⟩ : ∃ d, d = (4 * c + 3) / 1461 := ⟨_, rfl⟩
  obtain ⟨e, he⟩ : ∃ e, e = c - 1461 * d / 4 := ⟨_, rfl⟩
  have hb0 : 0 ≤ b := by omega
  have hb1 : b ≤ 14699 := by omega
  have hb2 : b * 146097 ≤ 2147483647 := by omega
  have hc0 : 0 ≤ c := by omega
  have hc1 : c ≤ 36524 := by omega
  have hd0 : 0 ≤ d := by omega
  have hd1 : d ≤ 99 := by omega
  have he0 : 0 ≤ e := by omega
  have he1 : e ≤ 365 := by omega
  have hday : j + 32044 = 146097 * b / 4 + 1461 * d / 4 + e := by omega
  have hcivil : Civil j b d e ((5 * e + 2) / 153) :=
    ⟨hb0, hb1, hd0, hd1, he0, he1, rfl, hday⟩
  have hm0 := hcivil.month_nonneg
  refine ⟨b, c, d, e, (5 * e + 2) / 153, hcivil, ?_, hc0, hc1, hb2⟩
  constructor
  · rw [hb]
    exact Int.tdiv_eq_ediv_of_nonneg (by omega)
  · rw [hc, Int.tdiv_eq_ediv_of_nonneg (by positivity)]
  · rw [hd]
    exact Int.tdiv_eq_ediv_of_nonneg (by positivity)
  · rw [he, Int.tdiv_eq_ediv_of_nonneg (by positivity)]
  · exact Int.tdiv_eq_ediv_of_nonneg (by positivity)
  · exact Int.tdiv_eq_ediv_of_nonneg (by positivity)
  · exact Int.tdiv_eq_ediv_of_nonneg hm0

/-- No operation of `getYearMonthDay` overflows. -/
theorem getYearMonthDay_eq {j b c d e m : ℤ} (hj : InCalendar j)
    (hcivil : Civil j b d e m) (h : Divisions j b c d e m) (hc0 : 0 ≤ c)
    (hc1 : c ≤ 36524) (hb2 : b * 146097 ≤ 2147483647) :
    getYearMonthDay j = .ok {
      year := b * 100 + d - 4800 + m / 10
      month := m + 3 - 12 * (m / 10)
      day := e - (153 * m + 2) / 5 + 1 } := by
  obtain ⟨hlow, hhigh⟩ := hj
  have hb0 := hcivil.century_nonneg
  have hb1 := hcivil.century_le
  have hd0 := hcivil.year_nonneg
  have hd1 := hcivil.year_le
  have he0 := hcivil.day_nonneg
  have he1 := hcivil.day_le
  have hm0 := hcivil.month_nonneg
  have hm1 := hcivil.month_le
  unfold getYearMonthDay
  repeat
    try simp only [h.century, h.dayOfCentury, h.year, h.dayOfYear, h.month,
      h.daysBefore, h.calendarYear]
    refine (int_bind (by omega) (by omega)).trans ?_
  rfl

/-- `getYearMonthDay` on the days inside the calendar. -/
theorem getYearMonthDay_civil {j : ℤ} (hj : InCalendar j) :
    ∃ b d e m, Civil j b d e m ∧ getYearMonthDay j = .ok {
      year := b * 100 + d - 4800 + m / 10
      month := m + 3 - 12 * (m / 10)
      day := e - (153 * m + 2) / 5 + 1 } := by
  obtain ⟨b, c, d, e, m, hcivil, hdivisions, hc0, hc1, hb2⟩ :=
    exists_divisions hj
  exact ⟨b, d, e, m, hcivil,
    getYearMonthDay_eq hj hcivil hdivisions hc0 hc1 hb2⟩

/-- The divisions of `getJulianDayNumber` on the date of a day. -/
structure DateDivisions (b d m y month : ℤ) : Prop where
  lateMonth : (14 - month).tdiv 12 = m / 10
  year : y + 4800 - m / 10 = b * 100 + d
  month : month + 12 * (m / 10) - 3 = m
  daysBefore : (153 * m + 2).tdiv 5 = (153 * m + 2) / 5
  leapYears : (b * 100 + d).tdiv 4 = 25 * b + d / 4
  centuries : (b * 100 + d).tdiv 100 = b
  leapCenturies : (b * 100 + d).tdiv 400 = b / 4

theorem Civil.dateDivisions {j b d e m : ℤ} (h : Civil j b d e m) :
    DateDivisions b d m (b * 100 + d - 4800 + m / 10)
      (m + 3 - 12 * (m / 10)) := by
  have hm0 := h.month_nonneg
  have hm1 := h.month_le
  have hb0 := h.century_nonneg
  have hd0 := h.year_nonneg
  have hd1 := h.year_le
  have hyear : 0 ≤ b * 100 + d := by omega
  constructor
  · rw [Int.tdiv_eq_ediv_of_nonneg (by omega)]
    omega
  · omega
  · omega
  · exact Int.tdiv_eq_ediv_of_nonneg (by positivity)
  · rw [Int.tdiv_eq_ediv_of_nonneg hyear]
    omega
  · rw [Int.tdiv_eq_ediv_of_nonneg hyear]
    omega
  · rw [Int.tdiv_eq_ediv_of_nonneg hyear]
    omega

/-- The days in front of the given date, counted year by year. -/
theorem Civil.count_eq {j b d e m : ℤ} (h : Civil j b d e m) :
    e + 1 + (b * 100 + d) * 365 + (25 * b + d / 4) - b + b / 4 - 32045 =
      j := by
  have := h.day_eq
  omega

/-- The conversions undo each other on the days inside the calendar. -/
theorem getJulianDayNumber_civil {j b d e m : ℤ} (h : Civil j b d e m)
    (hj : InCalendar j) :
    getJulianDayNumber (b * 100 + d - 4800 + m / 10)
      (m + 3 - 12 * (m / 10)) (e - (153 * m + 2) / 5 + 1) = .ok j := by
  have hcount := h.count_eq
  have hdivisions := h.dateDivisions
  have hb0 := h.century_nonneg
  have hb1 := h.century_le
  have hd0 := h.year_nonneg
  have hd1 := h.year_le
  have he0 := h.day_nonneg
  have he1 := h.day_le
  have hm0 := h.month_nonneg
  have hm1 := h.month_le
  have hday : e - (153 * m + 2) / 5 + 1 + (153 * m + 2) / 5 = e + 1 := by
    omega
  obtain ⟨hlow, hhigh⟩ := hj
  unfold getJulianDayNumber
  repeat
    try simp only [hdivisions.lateMonth, hdivisions.year, hdivisions.month,
      hdivisions.daysBefore, hdivisions.leapYears, hdivisions.centuries,
      hdivisions.leapCenturies, hday]
    refine (int_bind (by omega) (by omega)).trans ?_
  rw [hcount]
  exact int_of (by omega) (by omega)

end EventServer.Common
