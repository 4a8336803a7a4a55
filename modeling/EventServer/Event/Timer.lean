import EventServer.Support.Chrono

/-!
# Timeouts

`TimerUtils::durationToTimeval`, which turns a `std::chrono` duration into the
`timeval` that libevent takes.  The bound is checked on the number of seconds,
after the conversion: a unit that is coarser than a second can overflow there.
-/

namespace EventServer.Event

open EventServer.Support

@[ext]
structure Timeval where
  tv_sec : ℤ
  tv_usec : ℤ
  deriving DecidableEq, Repr

/-- The order of points in time. -/
def Timeval.Le (a b : Timeval) : Prop :=
  a.tv_sec < b.tv_sec ∨ (a.tv_sec = b.tv_sec ∧ a.tv_usec ≤ b.tv_usec)

instance (a b : Timeval) : Decidable (a.Le b) :=
  inferInstanceAs (Decidable (_ ∨ _))

/-- `clip_to`, which is `INT32_MAX`. -/
def clipTo : ℤ := 2 ^ 31 - 1

def durationToTimeval (p : Period) (d : ℤ) : Except Fault Timeval :=
  if d < 0 then return ⟨0, 500000⟩
  else do
    let secs ← durationCast p .seconds d
    if clipTo < secs then return ⟨clipTo, 0⟩
    else do
      let rest ← durationSub p d .seconds secs
      let usecs ← durationCast (p.common .seconds) .microseconds rest
      return ⟨secs, usecs⟩

/-! ## The exact value -/

/-- A duration in whole microseconds. -/
def wholeMicroseconds (p : Period) (d : ℤ) : ℤ :=
  d * p.num * 1000000 / p.den

/-- The seconds and microseconds of a duration in microseconds, or the largest
number of seconds. -/
def clipped (micros : ℤ) : Timeval :=
  if micros / 1000000 ≤ clipTo
  then ⟨micros / 1000000, micros % 1000000⟩
  else ⟨clipTo, 0⟩

theorem clipped_tv_usec (micros : ℤ) :
    0 ≤ (clipped micros).tv_usec ∧ (clipped micros).tv_usec < 1000000 := by
  unfold clipped
  split
  · exact ⟨Int.emod_nonneg _ (by decide), Int.emod_lt_of_pos _ (by decide)⟩
  · decide

/-- The microseconds of a duration are those of its whole seconds and those of
the rest. -/
theorem micros_split {d den : ℤ} (hden : 0 < den) :
    d * 1000000 / den / 1000000 = d / den ∧
      d * 1000000 / den % 1000000 = d % den * 1000000 / den := by
  have hsplit : d * 1000000 / den =
      d % den * 1000000 / den + 1000000 * (d / den) := by
    have hd : d * 1000000 =
        d % den * 1000000 + 1000000 * (d / den) * den := by
      linear_combination (-1000000 : ℤ) * Int.emod_add_mul_ediv d den
    rw [hd, Int.add_mul_ediv_right _ _ hden.ne']
  have hnonneg : 0 ≤ d % den := Int.emod_nonneg _ hden.ne'
  have hlt : d % den < den := Int.emod_lt_of_pos _ hden
  have hrest : 0 ≤ d % den * 1000000 / den :=
    Int.ediv_nonneg (by positivity) hden.le
  have hbound : d % den * 1000000 / den < 1000000 := by
    apply Int.ediv_lt_of_lt_mul hden
    linarith
  rw [hsplit]
  omega

theorem clipped_of_seconds {d den : ℤ} (hden : 0 < den) :
    clipped (d * 1000000 / den) =
      if clipTo < d / den then ⟨clipTo, 0⟩
      else ⟨d / den, d % den * 1000000 / den⟩ := by
  obtain ⟨hsec, husec⟩ := micros_split (d := d) hden
  unfold clipped
  rw [hsec, husec]
  by_cases hclip : clipTo < d / den
  · rw [if_pos hclip, if_neg (not_le.mpr hclip)]
  · rw [if_neg hclip, if_pos (not_lt.mp hclip)]

/-! ## Units of whole seconds -/

section Coarse

variable {p : Period} {d : ℤ}

theorem isMultiple_seconds (hden : p.den = 1) :
    IsMultiple p .seconds p.num := by
  simp [IsMultiple, Period.ratioNum, Period.ratioDen, Period.seconds, hden]

theorem common_seconds (hden : p.den = 1) :
    p.common .seconds = .seconds := by
  simp [Period.common, Period.seconds, hden]

/-- The product of a count that is not negative is checked against the upper
bound only. -/
theorem int64_mul_of_lt {k : ℕ} (hd : 0 ≤ d) (hlt : d * k < 2 ^ 63) :
    int64 (d * k) = .ok (d * k) := by
  have hnonneg : 0 ≤ d * (k : ℤ) := by positivity
  exact int64_of (by omega) hlt

theorem durationToTimeval_of_coarse (hden : p.den = 1) (hd : 0 ≤ d)
    (hlt : d * p.num < 2 ^ 63) :
    durationToTimeval p d = .ok (clipped (wholeMicroseconds p d)) := by
  have hnum : (1 : ℤ) ≤ p.num := by exact_mod_cast p.num_pos
  have hself : d ≤ d * p.num := le_mul_of_one_le_right hd hnum
  have hcount : IsInt64 d := ⟨by omega, by omega⟩
  have hsecs : durationCast p .seconds d = .ok (d * p.num) := by
    rw [durationCast_of_multiple (isMultiple_seconds hden) hcount,
      int64_mul_of_lt hd hlt]
  have hkeep : durationCast .seconds .seconds (d * p.num) =
      .ok (d * p.num) := by
    simp [durationCast, Period.ratioNum, Period.ratioDen, Period.seconds]
  have hrest : durationSub p d .seconds (d * p.num) = .ok 0 := by
    simp only [durationSub, common_seconds hden, hsecs, hkeep, ok_bind,
      sub_self]
    rfl
  have hmicros : durationCast .seconds .microseconds 0 = .ok 0 := by
    have hmultiple : IsMultiple .seconds .microseconds 1000000 := by decide
    rw [durationCast_of_multiple hmultiple (by decide), zero_mul]
    exact int64_of (by decide) (by decide)
  have hexact : wholeMicroseconds p d = d * p.num * 1000000 / 1 := by
    rw [wholeMicroseconds, hden]
    rfl
  rw [hexact, clipped_of_seconds one_pos, Int.ediv_one, Int.emod_one]
  simp only [durationToTimeval, if_neg (not_lt.mpr hd), hsecs, ok_bind]
  by_cases hclip : clipTo < d * p.num
  · rw [if_pos hclip, if_pos hclip, pure_eq_ok]
  · rw [if_neg hclip, if_neg hclip, hrest, ok_bind, common_seconds hden,
      hmicros, ok_bind]
    rfl

/-- The conversion to seconds overflows before the bound is checked. -/
theorem durationToTimeval_of_overflow (hden : p.den = 1) (hd : 0 ≤ d)
    (hcount : d < 2 ^ 63) (hlarge : 2 ^ 63 ≤ d * p.num) :
    durationToTimeval p d = .error .signedOverflow := by
  have hint : IsInt64 d := ⟨by omega, hcount⟩
  have hrange : ¬ IsInt64 (d * p.num) := fun h => by
    have := h.2
    omega
  have hsecs : durationCast p .seconds d = .error .signedOverflow := by
    rw [durationCast_of_multiple (isMultiple_seconds hden) hint, int64,
      if_neg hrange]
  simp only [durationToTimeval, if_neg (not_lt.mpr hd), hsecs, error_bind]

end Coarse

/-! ## Parts of a second -/

section Fine

variable {p : Period} {d : ℤ}

theorem isFraction_seconds (hnum : p.num = 1) :
    IsFraction p .seconds p.den := by
  simp [IsFraction, Period.ratioNum, Period.ratioDen, Period.seconds, hnum]

theorem isMultiple_of_seconds (hnum : p.num = 1) :
    IsMultiple .seconds p p.den := by
  simp [IsMultiple, Period.ratioNum, Period.ratioDen, Period.seconds, hnum]

theorem isMultiple_self (hnum : p.num = 1) : IsMultiple p p 1 := by
  simp [IsMultiple, Period.ratioNum, Period.ratioDen, hnum, p.den_pos]

theorem common_seconds_of_fine (hnum : p.num = 1) :
    p.common .seconds = p := by
  cases p
  simp_all [Period.common, Period.seconds]

theorem isMultiple_microseconds (hnum : p.num = 1) {k : ℕ}
    (hk : 1000000 = p.den * k) : IsMultiple p .microseconds k := by
  have hgcd : Nat.gcd 1000000 p.den = p.den := Nat.gcd_eq_right ⟨k, hk⟩
  have hdiv : 1000000 / p.den = k := by
    rw [hk, Nat.mul_div_cancel_left _ p.den_pos]
  refine ⟨?_, ?_⟩
  · simp only [Period.ratioNum, Period.microseconds, hnum, one_mul, mul_one,
      hgcd, hdiv]
  · simp only [Period.ratioDen, Period.microseconds, hnum, one_mul, mul_one,
      hgcd, Nat.div_self p.den_pos]

theorem isFraction_microseconds (hnum : p.num = 1) {k : ℕ}
    (hk : p.den = 1000000 * k) : IsFraction p .microseconds k := by
  have hgcd : Nat.gcd 1000000 p.den = 1000000 := Nat.gcd_eq_left ⟨k, hk⟩
  refine ⟨?_, ?_⟩
  · simp only [Period.ratioNum, Period.microseconds, hnum, one_mul, mul_one,
      hgcd]
  · simp only [Period.ratioDen, Period.microseconds, hnum, one_mul, mul_one,
      hgcd]
    rw [hk, Nat.mul_div_cancel_left _ (by decide)]

/-- The rest below a second in microseconds. -/
theorem durationCast_microseconds
    (hunit : p.den ∣ 1000000 ∨ 1000000 ∣ p.den) (hnum : p.num = 1) {r : ℤ}
    (hr : 0 ≤ r) (hlt : r < p.den) (hcount : IsInt64 r) :
    durationCast p .microseconds r = .ok (r * 1000000 / p.den) := by
  rcases hunit with ⟨k, hk⟩ | ⟨k, hk⟩
  · have hcast : (1000000 : ℤ) = p.den * k := by exact_mod_cast hk
    have hne : (p.den : ℤ) ≠ 0 := by exact_mod_cast p.den_pos.ne'
    have hexact : r * 1000000 / p.den = r * k := by
      rw [hcast, ← mul_assoc, mul_right_comm, Int.mul_ediv_cancel _ hne]
    have hbound : r * k < 2 ^ 63 := by
      have hk : (0 : ℤ) ≤ k := Int.natCast_nonneg k
      nlinarith
    rw [durationCast_of_multiple (isMultiple_microseconds hnum hk) hcount,
      int64_mul_of_lt hr hbound, hexact]
  · have hexact : r * 1000000 / p.den = r / k := by
      rw [hk, Nat.cast_mul, mul_comm r]
      exact Int.mul_ediv_mul_of_pos _ _ (by decide)
    rw [durationCast_of_fraction (isFraction_microseconds hnum hk) hr, hexact]

theorem durationToTimeval_of_fine
    (hunit : p.den ∣ 1000000 ∨ 1000000 ∣ p.den) (hnum : p.num = 1)
    (hd : 0 ≤ d) (hlt : d < 2 ^ 63) :
    durationToTimeval p d = .ok (clipped (wholeMicroseconds p d)) := by
  have hden : (0 : ℤ) < p.den := by exact_mod_cast p.den_pos
  have hcount : IsInt64 d := ⟨by omega, hlt⟩
  have hfloor : 0 ≤ d / p.den := Int.ediv_nonneg hd hden.le
  have hparts : d / p.den * p.den + d % p.den = d := Int.ediv_mul_add_emod d _
  have hrestNonneg : 0 ≤ d % p.den := Int.emod_nonneg _ hden.ne'
  have hrestLt : d % p.den < p.den := Int.emod_lt_of_pos _ hden
  have hproduct : 0 ≤ d / p.den * (p.den : ℤ) := by positivity
  have hsecs : durationCast p .seconds d = .ok (d / p.den) :=
    durationCast_of_fraction (isFraction_seconds hnum) hd
  have hquot : d / p.den ≤ d := Int.ediv_le_self _ hd
  have hself : durationCast p p d = .ok d := by
    rw [durationCast_of_multiple (isMultiple_self hnum) hcount, Nat.cast_one,
      mul_one, int64, if_pos hcount]
  have hback : durationCast .seconds p (d / p.den) =
      .ok (d / p.den * p.den) := by
    rw [durationCast_of_multiple (isMultiple_of_seconds hnum)
      ⟨by omega, by omega⟩, int64_mul_of_lt hfloor (by omega)]
  have hrest : durationSub p d .seconds (d / p.den) = .ok (d % p.den) := by
    have hdiff : d - d / p.den * p.den = d % p.den := by omega
    simp only [durationSub, common_seconds_of_fine hnum, hself, hback, ok_bind,
      hdiff]
    exact int64_of (by omega) (by omega)
  have hmicros := durationCast_microseconds hunit hnum hrestNonneg hrestLt
    ⟨by omega, by omega⟩
  have hexact : wholeMicroseconds p d = d * 1000000 / p.den := by
    rw [wholeMicroseconds, hnum, Nat.cast_one, mul_one]
  rw [hexact, clipped_of_seconds hden]
  simp only [durationToTimeval, if_neg (not_lt.mpr hd), hsecs, ok_bind]
  by_cases hclip : clipTo < d / p.den
  · rw [if_pos hclip, if_pos hclip, pure_eq_ok]
  · rw [if_neg hclip, if_neg hclip, hrest, ok_bind,
      common_seconds_of_fine hnum, hmicros, ok_bind, pure_eq_ok]

end Fine

/-! ## Every unit -/

/-- The units of time that `std::chrono` names. -/
inductive DurationType where
  | hours
  | minutes
  | seconds
  | milliseconds
  | microseconds
  | nanoseconds
  deriving DecidableEq, Repr

def DurationType.period : DurationType → Period
  | .hours => ⟨3600, 1, by decide, Nat.one_pos⟩
  | .minutes => ⟨60, 1, by decide, Nat.one_pos⟩
  | .seconds => .seconds
  | .milliseconds => ⟨1, 1000, Nat.one_pos, by decide⟩
  | .microseconds => .microseconds
  | .nanoseconds => ⟨1, 1000000000, Nat.one_pos, by decide⟩

/-- Every unit consists of whole seconds, or is a part of a second that
microseconds measure or that measures microseconds. -/
theorem DurationType.period_cases (t : DurationType) :
    t.period.den = 1 ∨
      (t.period.num = 1 ∧
        (t.period.den ∣ 1000000 ∨ 1000000 ∣ t.period.den)) := by
  cases t with
  | hours => exact Or.inl rfl
  | minutes => exact Or.inl rfl
  | seconds => exact Or.inl rfl
  | milliseconds => exact Or.inr ⟨rfl, by decide⟩
  | microseconds => exact Or.inr ⟨rfl, by decide⟩
  | nanoseconds => exact Or.inr ⟨rfl, by decide⟩

/-- No operation overflows as long as the whole ticks of the unit's numerator
fit into 64 bits, and the result is exact up to the bound. -/
theorem durationToTimeval_eq {t : DurationType} {d : ℤ} (hd : 0 ≤ d)
    (hlt : d * t.period.num < 2 ^ 63) :
    durationToTimeval t.period d =
      .ok (clipped (wholeMicroseconds t.period d)) := by
  rcases t.period_cases with hden | ⟨hnum, hunit⟩
  · exact durationToTimeval_of_coarse hden hd hlt
  · rw [hnum, Nat.cast_one, mul_one] at hlt
    exact durationToTimeval_of_fine hunit hnum hd hlt

theorem wholeMicroseconds_mono (p : Period) {d₁ d₂ : ℤ} (hle : d₁ ≤ d₂) :
    wholeMicroseconds p d₁ ≤ wholeMicroseconds p d₂ := by
  have hden : (0 : ℤ) < p.den := by exact_mod_cast p.den_pos
  unfold wholeMicroseconds
  apply Int.ediv_le_ediv hden
  gcongr

/-- Equal durations have the same whole microseconds. -/
theorem wholeMicroseconds_eq {p₁ p₂ : Period} {d₁ d₂ : ℤ}
    (hsame : d₁ * p₁.num * p₂.den = d₂ * p₂.num * p₁.den) :
    wholeMicroseconds p₁ d₁ = wholeMicroseconds p₂ d₂ := by
  have hden₁ : (0 : ℤ) < p₁.den := by exact_mod_cast p₁.den_pos
  have hden₂ : (0 : ℤ) < p₂.den := by exact_mod_cast p₂.den_pos
  calc
    wholeMicroseconds p₁ d₁
      = p₂.den * (d₁ * p₁.num * 1000000) / (p₂.den * p₁.den) :=
        (Int.mul_ediv_mul_of_pos _ _ hden₂).symm
    _ = p₁.den * (d₂ * p₂.num * 1000000) / (p₁.den * p₂.den) := by
        congr 1
        · linear_combination 1000000 * hsame
        · ring
    _ = wholeMicroseconds p₂ d₂ := Int.mul_ediv_mul_of_pos _ _ hden₁

theorem clipped_tv_sec_mono {m₁ m₂ : ℤ} (hle : m₁ ≤ m₂) :
    (clipped m₁).tv_sec ≤ (clipped m₂).tv_sec := by
  have hsecs : m₁ / 1000000 ≤ m₂ / 1000000 :=
    Int.ediv_le_ediv (by decide) hle
  unfold clipped
  split
  · split
    · exact hsecs
    · assumption
  · split
    · omega
    · exact le_refl _

/-- The fraction of the second that begins at the bound is not clipped. -/
def AboveBound (micros : ℤ) : Prop :=
  clipTo * 1000000 < micros ∧ micros < (clipTo + 1) * 1000000

/-- The result keeps the order of the durations, except from the fraction of
the second that begins at the bound to what is clipped. -/
theorem clipped_le_iff {m₁ m₂ : ℤ} (hle : m₁ ≤ m₂) :
    (clipped m₁).Le (clipped m₂) ↔
      ¬ (AboveBound m₁ ∧ (clipTo + 1) * 1000000 ≤ m₂) := by
  have hbound₁ : m₁ / 1000000 ≤ clipTo ↔ m₁ < (clipTo + 1) * 1000000 := by
    unfold clipTo
    omega
  have hbound₂ : m₂ / 1000000 ≤ clipTo ↔ m₂ < (clipTo + 1) * 1000000 := by
    unfold clipTo
    omega
  unfold clipped AboveBound Timeval.Le
  simp only [hbound₁, hbound₂]
  by_cases hfits₁ : m₁ < (clipTo + 1) * 1000000
  · rw [if_pos hfits₁]
    by_cases hfits₂ : m₂ < (clipTo + 1) * 1000000
    · rw [if_pos hfits₂]
      simp only
      omega
    · rw [if_neg hfits₂]
      simp only
      unfold clipTo at *
      omega
  · have hfits₂ : ¬ m₂ < (clipTo + 1) * 1000000 := by omega
    rw [if_neg hfits₁, if_neg hfits₂]
    exact iff_of_true (Or.inr ⟨rfl, le_refl _⟩) fun h => hfits₁ h.1.2

/-- For every unit and every count that is not negative and whose number of
seconds is below `2 ^ 63`, no operation overflows, the microseconds are in range
and the result is the exact value rounded down, or clipped.  The seconds of the
result keep the order of the durations, and so does the result except from the
fraction of the second at the bound to what is clipped.  Equal durations of
different units give the same result. -/
theorem durationToTimeval_clips (t : DurationType) {d : ℤ} (hd : 0 ≤ d)
    (hlt : d * t.period.num < 2 ^ 63) :
    ∃ tv, durationToTimeval t.period d = .ok tv ∧
      tv = clipped (wholeMicroseconds t.period d) ∧
      0 ≤ tv.tv_usec ∧ tv.tv_usec < 1000000 ∧
      (∀ d' tv', 0 ≤ d' → d' ≤ d →
        durationToTimeval t.period d' = .ok tv' →
        tv'.tv_sec ≤ tv.tv_sec ∧
          (tv'.Le tv ↔
            ¬ (AboveBound (wholeMicroseconds t.period d') ∧
              (clipTo + 1) * 1000000 ≤ wholeMicroseconds t.period d))) ∧
      (∀ (t' : DurationType) (d' : ℤ), 0 ≤ d' → d' * t'.period.num < 2 ^ 63 →
        d' * t'.period.num * t.period.den = d * t.period.num * t'.period.den →
        durationToTimeval t'.period d' = .ok tv) := by
  obtain ⟨hlow, hhigh⟩ := clipped_tv_usec (wholeMicroseconds t.period d)
  refine ⟨_, durationToTimeval_eq hd hlt, rfl, hlow, hhigh, ?_, ?_⟩
  · intro d' tv' hd' hle htv'
    have hnum : (0 : ℤ) ≤ t.period.num := Int.natCast_nonneg _
    have hlt' : d' * t.period.num < 2 ^ 63 :=
      (mul_le_mul_of_nonneg_right hle hnum).trans_lt hlt
    have hmicros := wholeMicroseconds_mono t.period hle
    rw [durationToTimeval_eq hd' hlt'] at htv'
    obtain rfl := Except.ok.inj htv'
    exact ⟨clipped_tv_sec_mono hmicros, clipped_le_iff hmicros⟩
  · intro t' d' hd' hlt' hsame
    rw [durationToTimeval_eq hd' hlt', wholeMicroseconds_eq hsame]

/-- A quarter of an hour. -/
theorem durationToTimeval_clips_minutes :
    ∃ tv, durationToTimeval DurationType.minutes.period 15 = .ok tv ∧
      tv = ⟨900, 0⟩ := by
  obtain ⟨tv, heq, htv, -⟩ :=
    durationToTimeval_clips .minutes (d := 15) (by decide) (by decide)
  exact ⟨tv, heq, htv.trans (by decide)⟩

/-- The largest number of hours overflows.  Half a second above the bound is
later than the bound, but the next whole second is clipped to the bound. -/
theorem durationToTimeval_fails :
    durationToTimeval DurationType.hours.period (2 ^ 63 - 1) =
        .error .signedOverflow ∧
      durationToTimeval DurationType.milliseconds.period 2147483647500 =
        .ok ⟨clipTo, 500000⟩ ∧
      durationToTimeval DurationType.milliseconds.period 2147483648000 =
        .ok ⟨clipTo, 0⟩ ∧
      ¬ Timeval.Le ⟨clipTo, 500000⟩ ⟨clipTo, 0⟩ := by
  refine ⟨?_, ?_, ?_, by decide⟩
  · exact durationToTimeval_of_overflow rfl (by decide) (by decide) (by decide)
  · exact (durationToTimeval_eq (t := .milliseconds) (by decide)
      (by decide)).trans (by decide)
  · exact (durationToTimeval_eq (t := .milliseconds) (by decide)
      (by decide)).trans (by decide)

end EventServer.Event
