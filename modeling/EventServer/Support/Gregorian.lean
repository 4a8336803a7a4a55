import Mathlib.Tactic

/-!
# The Gregorian calendar

Dates of the proleptic Gregorian calendar, their successors and their order.
A date is numbered by the days since 1 March of the year 0: in a year that
starts in March the leap day is the last one, and the months follow each other
in a regular pattern.
-/

namespace EventServer.Support

structure CalendarDate where
  year : ℤ
  month : ℤ
  day : ℤ
  deriving DecidableEq, Repr

namespace CalendarDate

/-! ## Dates -/

def IsLeapYear (y : ℤ) : Prop := 4 ∣ y ∧ (¬ 100 ∣ y ∨ 400 ∣ y)

instance : DecidablePred IsLeapYear := fun y =>
  inferInstanceAs (Decidable (4 ∣ y ∧ (¬ 100 ∣ y ∨ 400 ∣ y)))

def daysInMonth (y m : ℤ) : ℤ :=
  if m = 2 then if IsLeapYear y then 29 else 28
  else if m = 4 ∨ m = 6 ∨ m = 9 ∨ m = 11 then 30 else 31

structure Valid (a : CalendarDate) : Prop where
  one_le_month : 1 ≤ a.month
  month_le : a.month ≤ 12
  one_le_day : 1 ≤ a.day
  day_le : a.day ≤ daysInMonth a.year a.month

/-- The following day. -/
def next (a : CalendarDate) : CalendarDate :=
  if a.day < daysInMonth a.year a.month then { a with day := a.day + 1 }
  else if a.month < 12 then ⟨a.year, a.month + 1, 1⟩
  else ⟨a.year + 1, 1, 1⟩

/-- What the order of dates compares, one after the other. -/
def fields (a : CalendarDate) : List ℤ := [a.year, a.month, a.day]

/-! ## Years that start in March -/

def marchYear (a : CalendarDate) : ℤ :=
  if a.month ≤ 2 then a.year - 1 else a.year

/-- The months from March on, starting at 0. -/
def marchMonth (a : CalendarDate) : ℤ :=
  if a.month ≤ 2 then a.month + 9 else a.month - 3

/-- The days since 1 March. -/
def marchDay (a : CalendarDate) : ℤ :=
  (153 * a.marchMonth + 2) / 5 + a.day - 1

/-- The days from 1 March of the year 0 to 1 March of a year. -/
def daysBeforeYear (y : ℤ) : ℤ := 365 * y + y / 4 - y / 100 + y / 400

/-- The number of the day. -/
def number (a : CalendarDate) : ℤ := daysBeforeYear a.marchYear + a.marchDay

theorem marchMonth_add (a : CalendarDate) :
    12 * a.marchYear + a.marchMonth = 12 * a.year + a.month - 3 := by
  unfold marchYear marchMonth
  split
  · ring
  · ring

theorem Valid.marchMonth_bounds {a : CalendarDate} (h : a.Valid) :
    0 ≤ a.marchMonth ∧ a.marchMonth ≤ 11 := by
  have := h.one_le_month
  have := h.month_le
  unfold marchMonth
  split
  · omega
  · omega

/-- The days up to the end of a month, but for February. -/
theorem Valid.daysInMonth_eq {a : CalendarDate} (h : a.Valid)
    (hmonth : a.month ≠ 2) :
    daysInMonth a.year a.month =
      (153 * (a.marchMonth + 1) + 2) / 5 - (153 * a.marchMonth + 2) / 5 := by
  have hlow := h.one_le_month
  have hhigh := h.month_le
  unfold daysInMonth marchMonth
  rw [if_neg hmonth]
  generalize a.month = m at *
  interval_cases m
  all_goals simp_all

/-- The length of a year that ends with February. -/
def marchYearLength (y : ℤ) : ℤ := if IsLeapYear (y + 1) then 366 else 365

theorem daysBeforeYear_succ (y : ℤ) :
    daysBeforeYear (y + 1) = daysBeforeYear y + marchYearLength y := by
  unfold daysBeforeYear marchYearLength
  by_cases hleap : IsLeapYear (y + 1)
  · rw [if_pos hleap]
    unfold IsLeapYear at hleap
    omega
  · rw [if_neg hleap]
    unfold IsLeapYear at hleap
    omega

theorem daysBeforeYear_mono {y z : ℤ} (h : y ≤ z) :
    daysBeforeYear y ≤ daysBeforeYear z := by
  unfold daysBeforeYear
  omega

/-- The days up to the end of February. -/
theorem february_eq {a : CalendarDate} (hmonth : a.month = 2) :
    a.marchYear = a.year - 1 ∧ a.marchMonth = 11 ∧
      daysInMonth a.year a.month =
        marchYearLength a.marchYear - (153 * a.marchMonth + 2) / 5 := by
  have hyear : a.marchYear = a.year - 1 := if_pos (by omega)
  have hmarch : a.marchMonth = 11 := by
    unfold marchMonth
    rw [if_pos (by omega)]
    omega
  refine ⟨hyear, hmarch, ?_⟩
  rw [hyear, hmarch, marchYearLength, sub_add_cancel, daysInMonth, if_pos hmonth]
  split
  · rfl
  · rfl

theorem Valid.marchDay_bounds {a : CalendarDate} (h : a.Valid) :
    0 ≤ a.marchDay ∧ a.marchDay < marchYearLength a.marchYear := by
  have hday := h.one_le_day
  have hlast := h.day_le
  have hlength : 365 ≤ marchYearLength a.marchYear := by
    unfold marchYearLength
    split
    · decide
    · decide
  obtain ⟨hlow, hhigh⟩ := h.marchMonth_bounds
  unfold marchDay
  by_cases hmonth : a.month = 2
  · obtain ⟨-, hmarch, hdays⟩ := february_eq hmonth
    omega
  · have hdays := h.daysInMonth_eq hmonth
    have hne : a.marchMonth ≠ 11 := by
      have := h.one_le_month
      have := h.month_le
      unfold marchMonth
      split
      · omega
      · omega
    omega

/-! ## Successors -/

theorem Valid.next {a : CalendarDate} (h : a.Valid) : a.next.Valid := by
  have hone (y m : ℤ) : 1 ≤ daysInMonth y m := by
    unfold daysInMonth
    split_ifs
    all_goals decide
  have hlow := h.one_le_month
  have hhigh := h.month_le
  have hday := h.one_le_day
  unfold CalendarDate.next
  split
  · exact ⟨hlow, hhigh, by dsimp only; omega, by dsimp only; omega⟩
  split
  · exact ⟨by dsimp only; omega, by dsimp only; omega, le_refl 1, hone _ _⟩
  · exact ⟨le_refl 1, by dsimp only; omega, le_refl 1, hone _ _⟩

/-- Behind the last day of a month other than February comes the first day of
the next month of the year that starts in March. -/
theorem Valid.next_of_last {a : CalendarDate} (h : a.Valid)
    (hlast : ¬ a.day < daysInMonth a.year a.month) (hmonth : a.month ≠ 2) :
    a.next.marchYear = a.marchYear ∧
      a.next.marchMonth = a.marchMonth + 1 ∧ a.next.day = 1 := by
  have hlow := h.one_le_month
  have hhigh := h.month_le
  unfold CalendarDate.next marchYear marchMonth
  rw [if_neg hlast]
  by_cases hyear : a.month < 12
  · rw [if_pos hyear]
    dsimp only
    split_ifs
    all_goals omega
  · rw [if_neg hyear]
    dsimp only
    split_ifs
    all_goals omega

/-- The following day has the following number. -/
theorem Valid.number_next {a : CalendarDate} (h : a.Valid) :
    a.next.number = a.number + 1 := by
  have hday := h.day_le
  by_cases hlast : a.day < daysInMonth a.year a.month
  · have hnext : a.next = { a with day := a.day + 1 } := if_pos hlast
    rw [hnext]
    unfold number marchDay marchYear marchMonth
    dsimp only
    ring
  · by_cases hmonth : a.month = 2
    · obtain ⟨hyear, hmarch, hdays⟩ := february_eq hmonth
      have hnext : a.next = ⟨a.year, 3, 1⟩ := by
        rw [CalendarDate.next, if_neg hlast, if_pos (by omega), hmonth]
        rfl
      have hsucc := daysBeforeYear_succ a.marchYear
      rw [hyear, sub_add_cancel] at hsucc
      have hnumber : a.next.number = daysBeforeYear a.year := by
        rw [hnext]
        exact add_zero _
      rw [hnumber, number, marchDay, hyear, hsucc]
      rw [hyear] at hdays
      omega
    · obtain ⟨hyear, hmarch, hfirst⟩ := h.next_of_last hlast hmonth
      have hdays := h.daysInMonth_eq hmonth
      rw [number, number, hyear, marchDay, marchDay, hmarch, hfirst]
      omega

/-- From a date on, every number is the number of a date. -/
theorem Valid.exists_number_eq {a : CalendarDate} (ha : a.Valid) {k : ℤ}
    (hk : a.number ≤ k) : ∃ b : CalendarDate, b.Valid ∧ b.number = k := by
  induction k, hk using Int.leInduction with
  | base => exact ⟨a, ha, rfl⟩
  | succ k _ ih =>
      obtain ⟨b, hb, hnumber⟩ := ih
      exact ⟨b.next, hb.next, by rw [hb.number_next, hnumber]⟩

/-! ## Order -/

theorem eq_of_fields_eq {a b : CalendarDate} (h : a.fields = b.fields) :
    a = b := by
  obtain ⟨year, month, day⟩ := a
  obtain ⟨year', month', day'⟩ := b
  simpa [fields] using h

theorem fields_lt_iff {a b : CalendarDate} :
    a.fields < b.fields ↔ a.year < b.year ∨ a.year = b.year ∧
      (a.month < b.month ∨ a.month = b.month ∧ a.day < b.day) := by
  simp [fields, List.cons_lt_cons_iff]

/-- A later date has a larger number: its year that starts in March is later,
or its month in this year, or its day in this month. -/
theorem Valid.number_lt {a b : CalendarDate} (ha : a.Valid) (hb : b.Valid)
    (hlt : a.fields < b.fields) : a.number < b.number := by
  obtain ⟨-, hlength⟩ := ha.marchDay_bounds
  obtain ⟨hfirst, -⟩ := hb.marchDay_bounds
  have hfields := fields_lt_iff.mp hlt
  have hmonths := a.marchMonth_add
  have hmonths' := b.marchMonth_add
  obtain ⟨hlow, hhigh⟩ := ha.marchMonth_bounds
  obtain ⟨hlow', hhigh'⟩ := hb.marchMonth_bounds
  have hcases : a.marchYear < b.marchYear ∨ a.marchYear = b.marchYear ∧
      (a.marchMonth < b.marchMonth ∨
        a.marchMonth = b.marchMonth ∧ a.day < b.day) := by
    have := ha.one_le_month
    have := ha.month_le
    have := hb.one_le_month
    have := hb.month_le
    omega
  unfold number
  rcases hcases with hyear | ⟨hyear, hmonth | ⟨hmonth, hday⟩⟩
  · have hsucc := daysBeforeYear_succ a.marchYear
    have hmono := daysBeforeYear_mono (Int.add_one_le_of_lt hyear)
    omega
  · have hne : a.month ≠ 2 := by
      intro heq
      have := (february_eq heq).2.1
      omega
    have hdays := ha.daysInMonth_eq hne
    have hlast := ha.day_le
    have hone := hb.one_le_day
    unfold marchDay
    rw [hyear]
    omega
  · unfold marchDay
    rw [hyear, hmonth]
    omega

/-- Dates are in the order of their numbers. -/
theorem Valid.number_lt_iff {a b : CalendarDate} (ha : a.Valid)
    (hb : b.Valid) : a.number < b.number ↔ a.fields < b.fields := by
  constructor
  · intro hlt
    rcases lt_trichotomy a.fields b.fields with hbefore | hsame | hafter
    · exact hbefore
    · rw [eq_of_fields_eq hsame] at hlt
      exact absurd hlt (lt_irrefl _)
    · exact absurd (hb.number_lt ha hafter) (not_lt.mpr hlt.le)
  · exact ha.number_lt hb

end CalendarDate

end EventServer.Support
