import EventServer.Common.Date
import EventServer.Support.UpperBound

/-!
# Time zones

The conversions of `TimeZone.cc` between seconds since the epoch and calendar
times, and the searches in the transitions of a zone.  Operations that could
overflow are checked, and every element access can fail.
-/

namespace EventServer.Common

open EventServer.Support

structure DateTime where
  year : ℤ
  month : ℤ
  day : ℤ
  hour : ℤ
  minute : ℤ
  second : ℤ
  deriving DecidableEq, Repr

def kSecondsPerDay : ℤ := 24 * 60 * 60

/-! ## Calendar times without a zone -/

/-- `fillHMS`, whose argument is unsigned. -/
def fillHMS (seconds : ℤ) (dt : DateTime) : DateTime :=
  let minutes := seconds / 60
  { dt with second := seconds % 60, minute := minutes % 60, hour := minutes / 60 }

/-- `BreakTime`.  The casts to `int` wrap around. -/
def BreakTime (t : ℤ) : Except Fault DateTime := do
  let seconds := wrapInt (t.tmod kSecondsPerDay)
  let days := wrapInt (t.tdiv kSecondsPerDay)
  let (seconds, days) ←
    if seconds < 0 then do
      let seconds ← int (seconds + kSecondsPerDay)
      let days ← int (days - 1)
      pure (seconds, days)
    else pure (seconds, days)
  let ymd ← getYearMonthDay (← int (days + kJulianDayOf1970_01_01))
  return fillHMS seconds
    ⟨ymd.year, ymd.month, ymd.day, 0, 0, 0⟩

def toUtcTime (secondsSinceEpoch : ℤ) : Except Fault DateTime :=
  BreakTime secondsSinceEpoch

def fromUtcTime (dt : DateTime) : Except Fault ℤ := do
  let julianDayNumber ← getJulianDayNumber dt.year dt.month dt.day
  let secondsInDay ← int
    ((← int ((← int (dt.hour * 3600)) + (← int (dt.minute * 60)))) + dt.second)
  let days ← int (julianDayNumber - kJulianDayOf1970_01_01)
  int64 ((← int64 (days * kSecondsPerDay)) + secondsInDay)

/-! ## Zones -/

/-- `TimeZone::Data::Transition`. -/
structure Transition where
  utctime : ℤ
  localtime : ℤ
  localtimeIdx : ℤ
  deriving DecidableEq, Repr, Inhabited

/-- `TimeZone::Data::LocalTime`. -/
structure LocalTime where
  utcOffset : ℤ
  isDst : Bool
  desigIdx : ℤ
  deriving DecidableEq, Repr, Inhabited

/-- `TimeZone::Data`.  Its texts are byte strings. -/
structure Data where
  transitions : List Transition
  localtimes : List LocalTime
  abbreviation : List UInt8
  tzstring : List UInt8
  deriving DecidableEq, Repr

namespace Data

/-- `transitions.empty() || value < transitions.front().key`. -/
def beforeFirst (d : Data) (key : Transition → ℤ) (value : ℤ) : Bool :=
  match d.transitions with
  | [] => true
  | front :: _ => decide (value < key front)

/-- `findLocalTime(int64_t)`. -/
def findLocalTime (d : Data) (utcTime : ℤ) : Except Fault LocalTime :=
  if d.beforeFirst Transition.utctime utcTime then vectorAt d.localtimes 0
  else do
    let transI :=
      upperBound (fun t => decide (utcTime < t.utctime)) d.transitions
    ensure (transI ≠ 0) .assertion
    if transI ≠ d.transitions.length then
      let t ← vectorAt d.transitions ((transI : ℤ) - 1)
      vectorAt d.localtimes t.localtimeIdx
    else
      let back ← vectorAt d.transitions ((d.transitions.length : ℤ) - 1)
      vectorAt d.localtimes back.localtimeIdx

/-- The local time of a transition, one second before which another offset
still holds: `t.utctime - 1 + localtimes[prior.localtimeIdx].utcOffset`. -/
def priorSecond (d : Data) (t prior : Transition) : Except Fault ℤ := do
  let before ← int64 (t.utctime - 1)
  let lt ← vectorAt d.localtimes prior.localtimeIdx
  int64 (before + lt.utcOffset)

/-- `findLocalTime(const DateTime&, bool)`. -/
def findLocalTimeOf (d : Data) (lt : DateTime) (postTransition : Bool) :
    Except Fault LocalTime := do
  let localtime ← fromUtcTime lt
  if d.beforeFirst Transition.localtime localtime then
    vectorAt d.localtimes 0
  else
    let transI :=
      upperBound (fun t => decide (localtime < t.localtime)) d.transitions
    ensure (transI ≠ 0) .assertion
    if transI = d.transitions.length then
      let back ← vectorAt d.transitions ((d.transitions.length : ℤ) - 1)
      vectorAt d.localtimes back.localtimeIdx
    else
      let next ← vectorAt d.transitions transI
      let prior_trans ← vectorAt d.transitions ((transI : ℤ) - 1)
      let prior_second ← d.priorSecond next prior_trans
      if prior_second < localtime then
        -- a skip
        if postTransition then vectorAt d.localtimes next.localtimeIdx
        else vectorAt d.localtimes prior_trans.localtimeIdx
      else
        let t ← vectorAt d.transitions ((transI : ℤ) - 1)
        let (prior_trans, prior_second) ←
          if transI - 1 ≠ 0 then do
            let prior_trans ← vectorAt d.transitions ((transI : ℤ) - 2)
            let prior_second ← d.priorSecond t prior_trans
            pure (prior_trans, prior_second)
          else pure (prior_trans, prior_second)
        if localtime ≤ prior_second then
          -- a repeat
          if postTransition then vectorAt d.localtimes t.localtimeIdx
          else vectorAt d.localtimes prior_trans.localtimeIdx
        else vectorAt d.localtimes t.localtimeIdx

end Data

/-- A zone; without data it is invalid. -/
structure TimeZone where
  data_ : Option Data
  deriving DecidableEq, Repr

namespace TimeZone

/-- `toLocalTime`, with the value stored in `*utcOffset`. -/
def toLocalTime (zone : TimeZone) (seconds : ℤ) :
    Except Fault (DateTime × ℤ) := do
  match zone.data_ with
  | none => .error .assertion
  | some d =>
      let lt ← d.findLocalTime seconds
      let localTime ← BreakTime (← int64 (seconds + lt.utcOffset))
      return (localTime, lt.utcOffset)

def fromLocalTime (zone : TimeZone) (localtime : DateTime)
    (postTransition : Bool) : Except Fault ℤ := do
  match zone.data_ with
  | none => .error .assertion
  | some d =>
      let lt ← d.findLocalTimeOf localtime postTransition
      let localSeconds ← fromUtcTime localtime
      int64 (localSeconds - lt.utcOffset)

end TimeZone

/-! ## Calendar times are exact -/

/-- The second lies on a day inside the calendar. -/
def SecondInCalendar (t : ℤ) : Prop :=
  InCalendar (t / kSecondsPerDay + kJulianDayOf1970_01_01)

/-- The division of the source rounds towards zero. -/
theorem tdiv_tmod_cases (t : ℤ) :
    (0 ≤ t.tmod 86400 ∧ t.tmod 86400 = t % 86400 ∧
      t.tdiv 86400 = t / 86400) ∨
    (-86400 < t.tmod 86400 ∧ t.tmod 86400 < 0 ∧
      t.tmod 86400 + 86400 = t % 86400 ∧ t.tdiv 86400 - 1 = t / 86400) := by
  have hsum := Int.tdiv_mul_add_tmod t 86400
  have hlt := Int.tmod_lt_of_pos t (show (0 : ℤ) < 86400 by decide)
  have hgt := Int.lt_tmod_of_pos t (show (0 : ℤ) < 86400 by decide)
  by_cases hneg : t.tmod 86400 < 0
  · right
    omega
  · left
    omega

/-- `BreakTime` splits a second into its day and the seconds of the day. -/
theorem BreakTime_eq {t : ℤ} (ht : SecondInCalendar t) {ymd : YearMonthDay}
    (hymd : getYearMonthDay (t / 86400 + 2440588) = .ok ymd) :
    BreakTime t = .ok ⟨ymd.year, ymd.month, ymd.day, t % 86400 / 60 / 60,
      t % 86400 / 60 % 60, t % 86400 % 60⟩ := by
  obtain ⟨hlow, hhigh⟩ := ht
  simp only [kSecondsPerDay, kJulianDayOf1970_01_01] at hlow hhigh
  have hmod0 : 0 ≤ t % 86400 := Int.emod_nonneg t (by decide)
  have hmod1 : t % 86400 < 86400 := Int.emod_lt_of_pos t (by decide)
  have hday : int (t / 86400 + kJulianDayOf1970_01_01) =
      .ok (t / 86400 + 2440588) := by
    rw [show kJulianDayOf1970_01_01 = 2440588 from rfl]
    exact int_of (by omega) (by omega)
  unfold BreakTime
  simp only [show kSecondsPerDay = 86400 from rfl]
  rcases tdiv_tmod_cases t with ⟨hnonneg, hmod, hdiv⟩ | ⟨hgt, hneg, hmod, hdiv⟩
  · rw [hmod, hdiv, wrapInt_eq (by omega) (by omega),
      wrapInt_eq (by omega) (by omega), if_neg (by omega)]
    simp [hday, hymd, fillHMS]
  · rw [wrapInt_eq (by omega) (by omega), wrapInt_eq (by omega) (by omega),
      if_pos hneg, hmod, hdiv, int_of (by omega) (by omega),
      int_of (by omega) (by omega)]
    simp [hday, hymd, fillHMS]

/-- Splitting a second into a calendar time loses nothing. -/
theorem fromUtcTime_BreakTime {t : ℤ} (ht : SecondInCalendar t) :
    ∃ dt, BreakTime t = .ok dt ∧ fromUtcTime dt = .ok t := by
  have hj : InCalendar (t / 86400 + 2440588) := ht
  obtain ⟨b, d, e, m, hcivil, hymd⟩ := getYearMonthDay_civil hj
  refine ⟨_, BreakTime_eq ht hymd, ?_⟩
  obtain ⟨hlow, hhigh⟩ := hj
  have hmod0 : 0 ≤ t % 86400 := Int.emod_nonneg t (by decide)
  have hmod1 : t % 86400 < 86400 := Int.emod_lt_of_pos t (by decide)
  unfold fromUtcTime
  rw [getJulianDayNumber_civil hcivil ⟨hlow, hhigh⟩, ok_bind]
  simp only [kJulianDayOf1970_01_01, kSecondsPerDay]
  rw [int_of (by omega) (by omega), ok_bind, int_of (by omega) (by omega),
    ok_bind, int_of (by omega) (by omega), ok_bind,
    int_of (by omega) (by omega), ok_bind, int_of (by omega) (by omega),
    ok_bind, int64_of (by omega) (by omega), ok_bind,
    int64_of (by omega) (by omega)]
  exact congrArg Except.ok (by omega)

/-- Before the calendar the divisions round towards the wrong day. -/
example : (BreakTime (-32444 * 86400 - 2440588 * 86400) >>= fromUtcTime) =
    .ok (-32442 * 86400 - 2440588 * 86400) := by
  decide

end EventServer.Common
