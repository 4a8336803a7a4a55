import EventServer.Support.Printf
import EventServer.Common.UtcTime

/-!
# Times as text

The texts that `Date`, `DateTime` and `Timestamp` make of themselves.  All of
them but one put the larger unit first, in a fixed width, so that up to the
year 9999 sorting the texts sorts the times.
-/

namespace EventServer.Common

open EventServer.Support

/-! ## Dates and calendar times -/

/-- `%4d-%02d-%02d` -/
def dateFormat : List Conversion :=
  [⟨' ', 4, ['-']⟩, ⟨'0', 2, ['-']⟩, ⟨'0', 2, []⟩]

/-- `%04d-%02d-%02d %02d:%02d:%02d` -/
def dateTimeFormat : List Conversion :=
  [⟨'0', 4, ['-']⟩, ⟨'0', 2, ['-']⟩, ⟨'0', 2, [' ']⟩, ⟨'0', 2, [':']⟩,
    ⟨'0', 2, [':']⟩, ⟨'0', 2, []⟩]

/-- `Date::toIsoString`, for a date with the given Julian day number. -/
def Date.toIsoString (julianDayNumber_ : ℤ) : Except Fault (List Char) := do
  let ymd ← getYearMonthDay julianDayNumber_
  return snprintf 32 (format dateFormat [ymd.year, ymd.month, ymd.day])

/-- `DateTime::toIsoString`. -/
def DateTime.toIsoString (dt : DateTime) : List Char :=
  snprintf 64 (format dateTimeFormat
    [dt.year, dt.month, dt.day, dt.hour, dt.minute, dt.second])

/-! ## Timestamps -/

def kMicroSecondsPerSecond : ℤ := 1000 * 1000

/-- A `Timestamp`, whose member is an `int64_t`. -/
structure Timestamp where
  microSecondsSinceEpoch_ : ℤ
  in_range : -2 ^ 63 ≤ microSecondsSinceEpoch_ ∧
    microSecondsSinceEpoch_ < 2 ^ 63

namespace Timestamp

def secondsSinceEpoch (t : Timestamp) : ℤ :=
  t.microSecondsSinceEpoch_.tdiv kMicroSecondsPerSecond

/-- The microseconds behind the last full second, with the sign of the
timestamp. -/
def microseconds (t : Timestamp) : ℤ :=
  t.microSecondsSinceEpoch_.tmod kMicroSecondsPerSecond

/-- `%4d%02d%02d %02d:%02d:%02d` -/
def secondsFormat : List Conversion :=
  [⟨' ', 4, []⟩, ⟨'0', 2, []⟩, ⟨'0', 2, [' ']⟩, ⟨'0', 2, [':']⟩,
    ⟨'0', 2, [':']⟩, ⟨'0', 2, []⟩]

/-- `%4d%02d%02d %02d:%02d:%02d.%06d` -/
def microsecondsFormat : List Conversion :=
  [⟨' ', 4, []⟩, ⟨'0', 2, []⟩, ⟨'0', 2, [' ']⟩, ⟨'0', 2, [':']⟩,
    ⟨'0', 2, [':']⟩, ⟨'0', 2, ['.']⟩, ⟨'0', 6, []⟩]

/-- `toString`: the format is `%ld.%06ld`. -/
def toString (t : Timestamp) : List Char :=
  snprintf 32 (decimalInt t.secondsSinceEpoch ++
    '.' :: Conversion.print ⟨'0', 6, []⟩ t.microseconds)

/-- `struct tm`, with the members that are printed. -/
structure Tm where
  tm_sec : ℤ
  tm_min : ℤ
  tm_hour : ℤ
  tm_mday : ℤ
  tm_mon : ℤ
  tm_year : ℤ
  deriving DecidableEq, Repr

/-- The calendar time that a broken-down time stands for: its months begin with
0 and its years with 1900. -/
def Tm.dateTime (tm : Tm) : DateTime :=
  ⟨tm.tm_year + 1900, tm.tm_mon + 1, tm.tm_mday, tm.tm_hour, tm.tm_min,
    tm.tm_sec⟩

/-- `toFormattedString`, with the broken-down time of `gmtime_r`. -/
def toFormattedString (gmtime_r : ℤ → Tm) (t : Timestamp)
    (showMicroseconds : Bool) : List Char :=
  let tm_time := gmtime_r t.secondsSinceEpoch
  if showMicroseconds then
    snprintf 64 (format microsecondsFormat
      [tm_time.tm_year + 1900, tm_time.tm_mon + 1, tm_time.tm_mday,
        tm_time.tm_hour, tm_time.tm_min, tm_time.tm_sec, t.microseconds])
  else
    snprintf 64 (format secondsFormat
      [tm_time.tm_year + 1900, tm_time.tm_mon + 1, tm_time.tm_mday,
        tm_time.tm_hour, tm_time.tm_min, tm_time.tm_sec])

end Timestamp

/-! ## Calendar texts sort -/

/-- A year of four digits. -/
def FourDigits (year : ℤ) : Prop := 0 ≤ year ∧ year ≤ 9999

theorem fits_year {fill : Char} (hfill : fill ≤ '0') (after : List Char)
    {year : ℤ} (h : FourDigits year) :
    Conversion.Fits ⟨fill, 4, after⟩ year where
  fill_le := hfill
  nonneg := h.1
  width_pos := Nat.succ_pos 3
  lt_pow := by
    have hyear := h.2
    change year < 10 ^ 4
    omega

theorem fits_two (after : List Char) {z : ℤ} (hlow : 0 ≤ z) (hhigh : z ≤ 99) :
    Conversion.Fits ⟨'0', 2, after⟩ z where
  fill_le := le_refl _
  nonneg := hlow
  width_pos := Nat.succ_pos 1
  lt_pow := by
    change z < 10 ^ 2
    omega

theorem day_le_31 {a : CalendarDate} (h : a.Valid) : a.day ≤ 31 := by
  have hday := h.day_le
  unfold CalendarDate.daysInMonth at hday
  split_ifs at hday
  all_goals omega

theorem fits_dateFormat {a : CalendarDate} (h : a.Valid)
    (hyear : FourDigits a.year) :
    List.Forall₂ Conversion.Fits dateFormat a.fields := by
  have hday := day_le_31 h
  obtain ⟨hmonth, hmonth', hday', -⟩ := h
  refine .cons (fits_year (by decide) _ hyear) (.cons ?_ (.cons ?_ .nil))
  · exact fits_two _ (by omega) (by omega)
  · exact fits_two _ (by omega) (by omega)

/-- The formats of a calendar time, which differ in the padding of the year
and in the literal text. -/
theorem fits_times {dt : DateTime} (h : dt.Valid) (hyear : FourDigits dt.year)
    {fill : Char} (hfill : fill ≤ '0') (x₁ x₂ x₃ x₄ x₅ x₆ : List Char) :
    List.Forall₂ Conversion.Fits
      [⟨fill, 4, x₁⟩, ⟨'0', 2, x₂⟩, ⟨'0', 2, x₃⟩, ⟨'0', 2, x₄⟩, ⟨'0', 2, x₅⟩,
        ⟨'0', 2, x₆⟩] dt.fields := by
  have hday : dt.day ≤ 31 := day_le_31 h.date
  obtain ⟨⟨hmonth, hmonth', hday', -⟩, hhour, hhour', hminute, hminute',
    hsecond, hsecond'⟩ := h
  change 1 ≤ dt.month at hmonth
  change dt.month ≤ 12 at hmonth'
  change 1 ≤ dt.day at hday'
  refine .cons (fits_year hfill _ hyear) (.cons ?_ (.cons ?_ (.cons ?_
    (.cons ?_ (.cons ?_ .nil)))))
  all_goals exact fits_two _ (by omega) (by omega)

/-- A text that fits into its buffer is not cut off. -/
theorem snprintf_format {size : ℕ} {cs : List Conversion} {zs : List ℤ}
    (h : List.Forall₂ Conversion.Fits cs zs) (hsize : formatLength cs < size) :
    snprintf size (format cs zs) = format cs zs := by
  apply snprintf_of_length_lt
  rwa [format_length h]

/-- The Julian day numbers of the years of four digits. -/
theorem fourDigits_of_julianDay {a : CalendarDate} (h : a.Valid)
    (hlow : 1721060 ≤ julianDay a) (hhigh : julianDay a ≤ 5373484) :
    FourDigits a.year := by
  have hfirstValid : CalendarDate.Valid ⟨0, 1, 1⟩ :=
    ⟨by decide, by decide, by decide, by decide⟩
  have hlastValid : CalendarDate.Valid ⟨9999, 12, 31⟩ :=
    ⟨by decide, by decide, by decide, by decide⟩
  have hfirst : julianDay ⟨0, 1, 1⟩ = 1721060 := by decide
  have hlast : julianDay ⟨9999, 12, 31⟩ = 5373484 := by decide
  unfold julianDay at hfirst hlast hlow hhigh
  constructor
  · by_contra hneg
    have hlt := h.number_lt hfirstValid
      (CalendarDate.fields_lt_iff.mpr (Or.inl (not_le.mp hneg)))
    omega
  · by_contra hlarge
    have hlt := hlastValid.number_lt h
      (CalendarDate.fields_lt_iff.mpr (Or.inl (not_le.mp hlarge)))
    omega

theorem date_toIsoString {a : CalendarDate} (h : a.Valid)
    (hlow : 1721060 ≤ julianDay a) (hhigh : julianDay a ≤ 5373484) :
    Date.toIsoString (julianDay a) = .ok (format dateFormat a.fields) := by
  have hin : InCalendar (julianDay a) := ⟨by omega, by omega⟩
  have hfits := fits_dateFormat h (fourDigits_of_julianDay h hlow hhigh)
  rw [Date.toIsoString, (conversions h hin).1, ok_bind]
  exact congrArg Except.ok (snprintf_format hfits (by decide))

theorem dateTime_toIsoString {a : DateTime} (h : a.Valid)
    (hyear : FourDigits a.year) :
    a.toIsoString = format dateTimeFormat a.fields :=
  snprintf_format (fits_times h hyear (le_refl _) _ _ _ _ _ _) (by decide)

/-- The ISO texts of the dates and of the calendar times of the years 0 to
9999 are complete, and in the order of these dates and times. -/
theorem isoStrings_sort :
    (∀ j k, 1721060 ≤ j → j ≤ 5373484 → 1721060 ≤ k → k ≤ 5373484 →
      ∃ a b : CalendarDate, (a.Valid ∧ julianDay a = j) ∧
        (b.Valid ∧ julianDay b = k) ∧
        Date.toIsoString j = .ok (format dateFormat a.fields) ∧
        Date.toIsoString k = .ok (format dateFormat b.fields) ∧
        (format dateFormat a.fields < format dateFormat b.fields ↔ j < k)) ∧
    ∀ a b : DateTime, a.Valid → b.Valid → FourDigits a.year →
      FourDigits b.year →
      a.toIsoString = format dateTimeFormat a.fields ∧
        b.toIsoString = format dateTimeFormat b.fields ∧
        (a.toIsoString < b.toIsoString ↔ a.epochSecond < b.epochSecond) := by
  constructor
  · intro j k hj hj' hk hk'
    obtain ⟨a, ha, rfl⟩ := exists_julianDay_eq (j := j) ⟨by omega, by omega⟩
    obtain ⟨b, hb, rfl⟩ := exists_julianDay_eq (j := k) ⟨by omega, by omega⟩
    refine ⟨a, b, ⟨ha, rfl⟩, ⟨hb, rfl⟩, date_toIsoString ha hj hj',
      date_toIsoString hb hk hk', ?_⟩
    rw [format_lt_iff (fits_dateFormat ha (fourDigits_of_julianDay ha hj hj'))
      (fits_dateFormat hb (fourDigits_of_julianDay hb hk hk')),
      ← ha.number_lt_iff hb]
    unfold julianDay
    omega
  · intro a b ha hb hyear hyear'
    have hfits : List.Forall₂ Conversion.Fits dateTimeFormat a.fields :=
      fits_times ha hyear (le_refl _) _ _ _ _ _ _
    have hfits' : List.Forall₂ Conversion.Fits dateTimeFormat b.fields :=
      fits_times hb hyear' (le_refl _) _ _ _ _ _ _
    have htext := dateTime_toIsoString ha hyear
    have htext' := dateTime_toIsoString hb hyear'
    refine ⟨htext, htext', ?_⟩
    rw [htext, htext', format_lt_iff hfits hfits', ha.epochSecond_lt_iff hb]

/-! ## Texts of timestamps -/

namespace Timestamp

theorem eq_of_parts {a b : Timestamp}
    (hseconds : a.secondsSinceEpoch = b.secondsSinceEpoch)
    (hmicroseconds : a.microseconds = b.microseconds) : a = b := by
  have ha := Int.mul_tdiv_add_tmod a.microSecondsSinceEpoch_
    kMicroSecondsPerSecond
  have hb := Int.mul_tdiv_add_tmod b.microSecondsSinceEpoch_
    kMicroSecondsPerSecond
  unfold secondsSinceEpoch at hseconds
  unfold microseconds at hmicroseconds
  rw [hseconds, hmicroseconds, hb] at ha
  cases a
  cases b
  simpa using ha.symm

theorem secondsSinceEpoch_natAbs (t : Timestamp) :
    t.secondsSinceEpoch.natAbs < 10 ^ 13 := by
  obtain ⟨hlow, hhigh⟩ := t.in_range
  have hunit : kMicroSecondsPerSecond.natAbs = 1000000 := by decide
  have hquotient : t.secondsSinceEpoch.natAbs =
      t.microSecondsSinceEpoch_.natAbs / 1000000 := by
    rw [secondsSinceEpoch, Int.natAbs_tdiv, hunit]
    rfl
  rw [hquotient]
  omega

theorem microseconds_natAbs (t : Timestamp) :
    t.microseconds.natAbs < 10 ^ 6 := by
  have hunit : kMicroSecondsPerSecond.natAbs = 1000000 := by decide
  rw [microseconds, Int.natAbs_tmod, hunit]
  exact Nat.mod_lt _ (by decide)

/-- The buffer of `toString` is long enough for every timestamp. -/
theorem toString_eq (t : Timestamp) :
    t.toString = decimalInt t.secondsSinceEpoch ++
      '.' :: Conversion.print ⟨'0', 6, []⟩ t.microseconds := by
  have hseconds : (decimal t.secondsSinceEpoch.natAbs).length ≤ 13 :=
    decimal_length_le (by decide) t.secondsSinceEpoch_natAbs
  have hmicroseconds : (decimal t.microseconds.natAbs).length ≤ 6 :=
    decimal_length_le (by decide) t.microseconds_natAbs
  have hwhole : (decimalInt t.secondsSinceEpoch).length ≤ 14 := by
    unfold decimalInt
    split
    · rw [List.length_cons]
      omega
    · omega
  have hrest :
      (Conversion.print ⟨'0', 6, []⟩ t.microseconds).length ≤ 7 := by
    rw [Conversion.print_zero]
    split
    · rw [List.length_cons, List.length_leftpad]
      omega
    · rw [List.length_leftpad]
      omega
  rw [toString, snprintf_of_length_lt]
  rw [List.length_append, List.length_cons]
  omega

theorem point_not_mem_decimalInt (z : ℤ) : '.' ∉ decimalInt z := by
  intro hmem
  have hdigits : '.' ∈ decimal z.natAbs := by
    unfold decimalInt at hmem
    split at hmem
    · exact List.mem_of_ne_of_mem (by decide) hmem
    · exact hmem
  exact absurd (isDigit_of_mem_decimal hdigits) (by decide)

theorem point_not_mem_print (width : ℕ) (z : ℤ) :
    '.' ∉ Conversion.print ⟨'0', width, []⟩ z := by
  rw [Conversion.print_zero]
  intro hmem
  split at hmem
  · have hdigits := List.mem_of_ne_of_mem (by decide) hmem
    exact absurd (isDigit_of_mem_leftpad hdigits) (by decide)
  · exact absurd (isDigit_of_mem_leftpad hmem) (by decide)

/-- The text of `toString` determines the timestamp, be it negative or not. -/
theorem eq_of_toString_eq {a b : Timestamp} (h : a.toString = b.toString) :
    a = b := by
  rw [toString_eq, toString_eq] at h
  obtain ⟨hseconds, -, hmicroseconds⟩ :=
    (List.append_cons_inj_of_notMem (point_not_mem_decimalInt _)
      (point_not_mem_print 6 _)).mp h
  exact eq_of_parts (decimalInt_injective hseconds)
    (Conversion.print_injective 6 [] hmicroseconds)

/-- From the epoch to the end of the year 9999. -/
def BeforeYear10000 (t : Timestamp) : Prop :=
  0 ≤ t.microSecondsSinceEpoch_ ∧
    t.microSecondsSinceEpoch_ < 253402300800 * kMicroSecondsPerSecond

instance : DecidablePred BeforeYear10000 :=
  fun _ => inferInstanceAs (Decidable (_ ∧ _))

section Formatted

variable {gmtime_r : ℤ → Tm} {a b : Timestamp}

theorem BeforeYear10000.parts (h : a.BeforeYear10000) :
    a.microSecondsSinceEpoch_ =
        a.secondsSinceEpoch * 1000000 + a.microseconds ∧
      0 ≤ a.secondsSinceEpoch ∧ a.secondsSinceEpoch ≤ 253402300799 ∧
      0 ≤ a.microseconds ∧ a.microseconds ≤ 999999 := by
  obtain ⟨hlow, hhigh⟩ := h
  unfold secondsSinceEpoch microseconds kMicroSecondsPerSecond at *
  rw [Int.tdiv_eq_ediv_of_nonneg hlow, Int.tmod_eq_emod_of_nonneg hlow]
  omega

/-- The broken-down time of such a timestamp. -/
theorem BeforeYear10000.gmtime (h : a.BeforeYear10000)
    (hgmtime : ∀ t, SecondInCalendar t →
      (gmtime_r t).dateTime.Valid ∧ (gmtime_r t).dateTime.epochSecond = t) :
    (gmtime_r a.secondsSinceEpoch).dateTime.Valid ∧
      FourDigits (gmtime_r a.secondsSinceEpoch).dateTime.year ∧
      (gmtime_r a.secondsSinceEpoch).dateTime.epochSecond = a.secondsSinceEpoch := by
  obtain ⟨-, hlow, hhigh, -, -⟩ := h.parts
  have hin : SecondInCalendar a.secondsSinceEpoch := by
    unfold SecondInCalendar InCalendar kSecondsPerDay kJulianDayOf1970_01_01
    omega
  obtain ⟨hvalid, hsecond⟩ := hgmtime _ hin
  have hday := hvalid.epochSecond_ediv.1
  rw [hsecond] at hday
  unfold kSecondsPerDay kJulianDayOf1970_01_01 at hday
  exact ⟨hvalid,
    fourDigits_of_julianDay hvalid.date (by omega) (by omega), hsecond⟩

theorem seconds_lt_iff (ha : a.BeforeYear10000) (hb : b.BeforeYear10000)
    (hgmtime : ∀ t, SecondInCalendar t →
      (gmtime_r t).dateTime.Valid ∧ (gmtime_r t).dateTime.epochSecond = t) :
    (gmtime_r a.secondsSinceEpoch).dateTime.fields <
        (gmtime_r b.secondsSinceEpoch).dateTime.fields ↔
      a.secondsSinceEpoch < b.secondsSinceEpoch := by
  obtain ⟨hvalid, -, hsecond⟩ := ha.gmtime hgmtime
  obtain ⟨hvalid', -, hsecond'⟩ := hb.gmtime hgmtime
  rw [← hvalid.epochSecond_lt_iff hvalid', hsecond, hsecond']

theorem seconds_eq_iff (ha : a.BeforeYear10000) (hb : b.BeforeYear10000)
    (hgmtime : ∀ t, SecondInCalendar t →
      (gmtime_r t).dateTime.Valid ∧ (gmtime_r t).dateTime.epochSecond = t) :
    (gmtime_r a.secondsSinceEpoch).dateTime.fields =
        (gmtime_r b.secondsSinceEpoch).dateTime.fields ↔
      a.secondsSinceEpoch = b.secondsSinceEpoch := by
  have hlt := seconds_lt_iff ha hb hgmtime
  have hgt := seconds_lt_iff hb ha hgmtime
  constructor
  · intro h
    rw [h] at hlt hgt
    have hnot := lt_irrefl (gmtime_r b.secondsSinceEpoch).dateTime.fields
    have hlt' := mt hlt.mpr hnot
    have hgt' := mt hgt.mpr hnot
    omega
  · intro h
    rw [h]

theorem toFormattedString_lt_iff (ha : a.BeforeYear10000)
    (hb : b.BeforeYear10000)
    (hgmtime : ∀ t, SecondInCalendar t →
      (gmtime_r t).dateTime.Valid ∧ (gmtime_r t).dateTime.epochSecond = t) :
    a.toFormattedString gmtime_r true < b.toFormattedString gmtime_r true ↔
      a.microSecondsSinceEpoch_ < b.microSecondsSinceEpoch_ := by
  have hfits : ∀ {t : Timestamp}, t.BeforeYear10000 →
      List.Forall₂ Conversion.Fits microsecondsFormat
        ((gmtime_r t.secondsSinceEpoch).dateTime.fields ++ [t.microseconds]) := by
    intro t ht
    obtain ⟨hvalid, hyear, -⟩ := ht.gmtime hgmtime
    obtain ⟨-, -, -, hlow, hhigh⟩ := ht.parts
    have hlast : Conversion.Fits ⟨'0', 6, []⟩ t.microseconds :=
      ⟨le_refl _, hlow, Nat.succ_pos 5, by
        change t.microseconds < 10 ^ 6
        omega⟩
    exact List.rel_append (fits_times hvalid hyear (by decide) _ _ _ _ _ _)
      (.cons hlast .nil)
  have htext : ∀ {t : Timestamp}, t.BeforeYear10000 →
      t.toFormattedString gmtime_r true = format microsecondsFormat
        ((gmtime_r t.secondsSinceEpoch).dateTime.fields ++ [t.microseconds]) :=
    fun ht => snprintf_format (hfits ht) (by decide)
  have hlength : (gmtime_r a.secondsSinceEpoch).dateTime.fields.length =
      (gmtime_r b.secondsSinceEpoch).dateTime.fields.length := rfl
  rw [htext ha, htext hb, format_lt_iff (hfits ha) (hfits hb),
    append_singleton_lt_iff hlength, seconds_lt_iff ha hb hgmtime,
    seconds_eq_iff ha hb hgmtime]
  obtain ⟨hwhole, -, -, hlow, hhigh⟩ := ha.parts
  obtain ⟨hwhole', -, -, hlow', hhigh'⟩ := hb.parts
  omega

theorem toFormattedString_seconds_lt_iff (ha : a.BeforeYear10000)
    (hb : b.BeforeYear10000)
    (hgmtime : ∀ t, SecondInCalendar t →
      (gmtime_r t).dateTime.Valid ∧ (gmtime_r t).dateTime.epochSecond = t) :
    a.toFormattedString gmtime_r false < b.toFormattedString gmtime_r false ↔
      a.secondsSinceEpoch < b.secondsSinceEpoch := by
  have hfits : ∀ {t : Timestamp}, t.BeforeYear10000 →
      List.Forall₂ Conversion.Fits secondsFormat
        (gmtime_r t.secondsSinceEpoch).dateTime.fields := by
    intro t ht
    obtain ⟨hvalid, hyear, -⟩ := ht.gmtime hgmtime
    exact fits_times hvalid hyear (by decide) _ _ _ _ _ _
  have htext : ∀ {t : Timestamp}, t.BeforeYear10000 →
      t.toFormattedString gmtime_r false =
        format secondsFormat (gmtime_r t.secondsSinceEpoch).dateTime.fields :=
    fun ht => snprintf_format (hfits ht) (by decide)
  rw [htext ha, htext hb, format_lt_iff (hfits ha) (hfits hb),
    seconds_lt_iff ha hb hgmtime]

end Formatted

/-- The text of `toString` determines every timestamp.  From the epoch to the
year 9999 the texts of `toFormattedString` are in the order of the timestamps,
and without the microseconds in that of their seconds. -/
theorem timestamp_texts (gmtime_r : ℤ → Tm)
    (hgmtime : ∀ t, SecondInCalendar t →
      (gmtime_r t).dateTime.Valid ∧ (gmtime_r t).dateTime.epochSecond = t)
    (a b : Timestamp) :
    (a.toString = b.toString ↔ a = b) ∧
    (a.BeforeYear10000 → b.BeforeYear10000 →
      (a.toFormattedString gmtime_r true < b.toFormattedString gmtime_r true ↔
        a.microSecondsSinceEpoch_ < b.microSecondsSinceEpoch_) ∧
      (a.toFormattedString gmtime_r false <
          b.toFormattedString gmtime_r false ↔
        a.secondsSinceEpoch < b.secondsSinceEpoch)) := by
  refine ⟨⟨eq_of_toString_eq, congrArg toString⟩, fun ha hb => ⟨?_, ?_⟩⟩
  · exact toFormattedString_lt_iff ha hb hgmtime
  · exact toFormattedString_seconds_lt_iff ha hb hgmtime

/-- The broken-down time of a second, and some time outside the calendar. -/
def brokenDownTime (t : ℤ) : Tm :=
  match toUtcTime t with
  | .ok dt =>
      ⟨dt.second, dt.minute, dt.hour, dt.day, dt.month - 1, dt.year - 1900⟩
  | .error _ => ⟨0, 0, 0, 0, 0, 0⟩

theorem brokenDownTime_spec (t : ℤ) (ht : SecondInCalendar t) :
    (brokenDownTime t).dateTime.Valid ∧
      (brokenDownTime t).dateTime.epochSecond = t := by
  obtain ⟨dt, hdt, rfl⟩ := DateTime.exists_epochSecond_eq ht
  have htime := hdt.toUtcTime_eq (hdt.secondInCalendar_iff.mp ht)
  have hsame : (brokenDownTime dt.epochSecond).dateTime = dt := by
    simp [brokenDownTime, htime, Tm.dateTime]
  rw [hsame]
  exact ⟨hdt, rfl⟩

/-- One microsecond before and after a leap day ends. -/
theorem timestamp_texts_leapDay :
    let a : Timestamp := ⟨1709251199999999, by decide⟩
    let b : Timestamp := ⟨1709251200000000, by decide⟩
    a.toString ≠ b.toString ∧
      a.toFormattedString brokenDownTime true <
        b.toFormattedString brokenDownTime true ∧
      a.toFormattedString brokenDownTime false <
        b.toFormattedString brokenDownTime false := by
  intro a b
  have ha : a.BeforeYear10000 := by decide
  have hb : b.BeforeYear10000 := by decide
  obtain ⟨hexact, hformatted⟩ :=
    timestamp_texts brokenDownTime brokenDownTime_spec a b
  obtain ⟨hmicroseconds, hseconds⟩ := hformatted ha hb
  refine ⟨fun heq => ?_, hmicroseconds.mpr (by decide),
    hseconds.mpr (by decide)⟩
  have hsame := congrArg microSecondsSinceEpoch_ (hexact.mp heq)
  exact absurd hsame (by decide)

end Timestamp

end EventServer.Common
