import EventServer.Common.DateCalendar
import EventServer.Common.TimeZone

/-!
# Times in UTC

The seconds since the epoch on the days of the calendar and the calendar times
on these days are in one-to-one correspondence, and their orders agree.
-/

namespace EventServer.Common

open EventServer.Support

namespace DateTime

def date (dt : DateTime) : CalendarDate := ⟨dt.year, dt.month, dt.day⟩

/-- The seconds since midnight. -/
def secondOfDay (dt : DateTime) : ℤ :=
  dt.hour * 3600 + dt.minute * 60 + dt.second

/-- A time on a day of the Gregorian calendar. -/
structure Valid (dt : DateTime) : Prop where
  date : dt.date.Valid
  hour_nonneg : 0 ≤ dt.hour
  hour_le : dt.hour ≤ 23
  minute_nonneg : 0 ≤ dt.minute
  minute_le : dt.minute ≤ 59
  second_nonneg : 0 ≤ dt.second
  second_le : dt.second ≤ 59

/-- What the order of times compares, one after the other. -/
def fields (dt : DateTime) : List ℤ :=
  [dt.year, dt.month, dt.day, dt.hour, dt.minute, dt.second]

/-- The seconds since the epoch. -/
def epochSecond (dt : DateTime) : ℤ :=
  (julianDay dt.date - kJulianDayOf1970_01_01) * kSecondsPerDay +
    dt.secondOfDay

variable {dt : DateTime}

theorem Valid.secondOfDay_bounds (h : dt.Valid) :
    0 ≤ dt.secondOfDay ∧ dt.secondOfDay < kSecondsPerDay := by
  obtain ⟨-, hhour, hhour', hminute, hminute', hsecond, hsecond'⟩ := h
  unfold secondOfDay kSecondsPerDay
  omega

/-- The day of a second and the second of the day. -/
theorem Valid.epochSecond_ediv (h : dt.Valid) :
    dt.epochSecond / kSecondsPerDay =
        julianDay dt.date - kJulianDayOf1970_01_01 ∧
      dt.epochSecond % kSecondsPerDay = dt.secondOfDay := by
  obtain ⟨hnonneg, hlt⟩ := h.secondOfDay_bounds
  unfold epochSecond kSecondsPerDay at *
  omega

theorem Valid.secondInCalendar_iff (h : dt.Valid) :
    SecondInCalendar dt.epochSecond ↔ InCalendar (julianDay dt.date) := by
  rw [SecondInCalendar, h.epochSecond_ediv.1, sub_add_cancel]

theorem Valid.fromUtcTime_eq (h : dt.Valid)
    (hin : InCalendar (julianDay dt.date)) :
    fromUtcTime dt = .ok dt.epochSecond := by
  obtain ⟨hdate, hhour, hhour', hminute, hminute', hsecond, hsecond'⟩ := h
  have hnumber := (conversions hdate hin).2
  obtain ⟨hlow, hhigh⟩ := hin
  change getJulianDayNumber dt.year dt.month dt.day = _ at hnumber
  unfold fromUtcTime epochSecond secondOfDay kJulianDayOf1970_01_01
    kSecondsPerDay
  rw [hnumber, ok_bind]
  repeat refine (int_bind (by omega) (by omega)).trans ?_
  rw [int64_of (by omega) (by omega), ok_bind]
  exact int64_of (by omega) (by omega)

theorem Valid.toUtcTime_eq (h : dt.Valid)
    (hin : InCalendar (julianDay dt.date)) :
    toUtcTime dt.epochSecond = .ok dt := by
  obtain ⟨hday, hsecond⟩ := h.epochSecond_ediv
  have hymd := (conversions h.date hin).1
  have hjulian : dt.epochSecond / 86400 + 2440588 = julianDay dt.date := by
    unfold kSecondsPerDay kJulianDayOf1970_01_01 at hday
    omega
  rw [toUtcTime, BreakTime_eq (h.secondInCalendar_iff.mpr hin)
    (hjulian ▸ hymd)]
  obtain ⟨-, hhour, hhour', hminute, hminute', hsecond0, hsecond1⟩ := h
  unfold kSecondsPerDay secondOfDay at hsecond
  have hhourEq : dt.epochSecond % 86400 / 60 / 60 = dt.hour := by omega
  have hminuteEq : dt.epochSecond % 86400 / 60 % 60 = dt.minute := by omega
  have hsecondEq : dt.epochSecond % 86400 % 60 = dt.second := by omega
  rw [hhourEq, hminuteEq, hsecondEq]
  rfl

/-- Every second on a day inside the calendar is the one of a time. -/
theorem exists_epochSecond_eq {t : ℤ} (ht : SecondInCalendar t) :
    ∃ dt : DateTime, dt.Valid ∧ dt.epochSecond = t := by
  obtain ⟨a, ha, hjulian⟩ := exists_julianDay_eq ht
  unfold kSecondsPerDay at hjulian
  refine ⟨⟨a.year, a.month, a.day, t % 86400 / 3600, t % 86400 % 3600 / 60,
    t % 60⟩, ⟨ha, ?_, ?_, ?_, ?_, ?_, ?_⟩, ?_⟩
  · dsimp only; omega
  · dsimp only; omega
  · dsimp only; omega
  · dsimp only; omega
  · dsimp only; omega
  · dsimp only; omega
  · change (julianDay a - kJulianDayOf1970_01_01) * 86400 +
      (t % 86400 / 3600 * 3600 + t % 86400 % 3600 / 60 * 60 + t % 60) = t
    omega

/-! ## Order -/

theorem fields_lt_iff {a b : DateTime} :
    a.fields < b.fields ↔ a.date.fields < b.date.fields ∨
      a.date = b.date ∧ (a.hour < b.hour ∨ a.hour = b.hour ∧
        (a.minute < b.minute ∨ a.minute = b.minute ∧ a.second < b.second)) := by
  rw [CalendarDate.fields_lt_iff]
  simp only [fields, date, CalendarDate.mk.injEq, List.cons_lt_cons_iff,
    List.not_lt_nil, and_false, or_false]
  tauto

/-- A later day has later seconds. -/
theorem Valid.epochSecond_lt {a b : DateTime} (ha : a.Valid) (hb : b.Valid)
    (hlt : a.date.fields < b.date.fields) : a.epochSecond < b.epochSecond := by
  have hnumber := ha.date.number_lt hb.date hlt
  obtain ⟨-, hsecond⟩ := ha.secondOfDay_bounds
  obtain ⟨hsecond', -⟩ := hb.secondOfDay_bounds
  unfold epochSecond julianDay kSecondsPerDay at *
  omega

/-- Times are in the order of their seconds. -/
theorem Valid.epochSecond_lt_iff {a b : DateTime} (ha : a.Valid)
    (hb : b.Valid) : a.epochSecond < b.epochSecond ↔ a.fields < b.fields := by
  rw [fields_lt_iff]
  rcases lt_trichotomy a.date.fields b.date.fields with hlt | hsame | hgt
  · exact iff_of_true (ha.epochSecond_lt hb hlt) (Or.inl hlt)
  · have hdate := CalendarDate.eq_of_fields_eq hsame
    obtain ⟨-, hhour, hhour', hminute, hminute', hsecond, hsecond'⟩ := ha
    obtain ⟨-, hhour2, hhour2', hminute2, hminute2', hsecond2, hsecond2'⟩ := hb
    unfold epochSecond secondOfDay
    simp only [hdate, lt_irrefl, true_and, false_or]
    omega
  · have hafter := hb.epochSecond_lt ha hgt
    refine iff_of_false (not_lt.mpr hafter.le) ?_
    rintro (hlt | ⟨heq, -⟩)
    · exact lt_asymm hlt hgt
    · rw [heq] at hgt
      exact lt_irrefl _ hgt

end DateTime

/-! ## The correspondence -/

/-- The conversions between the seconds since the epoch on the days inside the
calendar and the times on these days undo each other, and keep the order. -/
theorem utcTime_bijection :
    (∀ t, SecondInCalendar t → ∃ dt : DateTime, dt.Valid ∧
      toUtcTime t = .ok dt ∧ fromUtcTime dt = .ok t) ∧
    (∀ dt : DateTime, dt.Valid → firstDate.fields ≤ dt.date.fields →
      dt.date.fields ≤ lastDate.fields → ∃ t, SecondInCalendar t ∧
        fromUtcTime dt = .ok t ∧ toUtcTime t = .ok dt) ∧
    ∀ t t' dt dt', SecondInCalendar t → SecondInCalendar t' →
      toUtcTime t = .ok dt → toUtcTime t' = .ok dt' →
      (t < t' ↔ dt.fields < dt'.fields) := by
  refine ⟨?_, ?_, ?_⟩
  · intro t ht
    obtain ⟨dt, hdt, rfl⟩ := DateTime.exists_epochSecond_eq ht
    have hin := hdt.secondInCalendar_iff.mp ht
    exact ⟨dt, hdt, hdt.toUtcTime_eq hin, hdt.fromUtcTime_eq hin⟩
  · intro dt hdt hfirst hlast
    have hin := (inCalendar_iff hdt.date).mpr ⟨hfirst, hlast⟩
    exact ⟨dt.epochSecond, hdt.secondInCalendar_iff.mpr hin,
      hdt.fromUtcTime_eq hin, hdt.toUtcTime_eq hin⟩
  · intro t t' dt dt' ht ht' hdt hdt'
    obtain ⟨a, ha, rfl⟩ := DateTime.exists_epochSecond_eq ht
    obtain ⟨b, hb, rfl⟩ := DateTime.exists_epochSecond_eq ht'
    rw [ha.toUtcTime_eq (ha.secondInCalendar_iff.mp ht)] at hdt
    rw [hb.toUtcTime_eq (hb.secondInCalendar_iff.mp ht')] at hdt'
    obtain rfl := Except.ok.inj hdt
    obtain rfl := Except.ok.inj hdt'
    exact ha.epochSecond_lt_iff hb

end EventServer.Common
