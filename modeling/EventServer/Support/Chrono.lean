import EventServer.Support.Machine

/-!
# Durations

The durations of `std::chrono` with a count of 64 bits: conversion between two
periods, and subtraction in their common type.  A conversion multiplies by the
numerator of the ratio of the periods and divides by its denominator, with the
operations that are not needed left out.
-/

namespace EventServer.Support

/-- How many seconds a tick lasts, as a fraction in lowest terms. -/
structure Period where
  num : ℕ
  den : ℕ
  num_pos : 0 < num
  den_pos : 0 < den
  deriving DecidableEq, Repr

namespace Period

def seconds : Period := ⟨1, 1, by decide, by decide⟩

def microseconds : Period := ⟨1, 1000000, by decide, by decide⟩

/-- The period of the common type of two durations. -/
def common (p q : Period) : Period where
  num := Nat.gcd p.num q.num
  den := Nat.lcm p.den q.den
  num_pos := Nat.gcd_pos_of_pos_left _ p.num_pos
  den_pos := Nat.lcm_pos p.den_pos q.den_pos

/-- The numerator of `p / q` in lowest terms. -/
def ratioNum (p q : Period) : ℕ :=
  p.num * q.den / Nat.gcd (p.num * q.den) (p.den * q.num)

/-- The denominator of `p / q` in lowest terms. -/
def ratioDen (p q : Period) : ℕ :=
  p.den * q.num / Nat.gcd (p.num * q.den) (p.den * q.num)

end Period

/-- `std::chrono::duration_cast` of a count from period `p` to period `q`. -/
def durationCast (p q : Period) (count : ℤ) : Except Fault ℤ :=
  if p.ratioDen q = 1
  then
    if p.ratioNum q = 1
    then .ok count
    else int64 (count * p.ratioNum q)
  else if p.ratioNum q = 1
  then .ok (count.tdiv (p.ratioDen q))
  else do
    let scaled ← int64 (count * p.ratioNum q)
    return scaled.tdiv (p.ratioDen q)

/-- The difference of two durations, which is in the period
`p.common q`. -/
def durationSub (p : Period) (count : ℤ) (q : Period) (count' : ℤ) :
    Except Fault ℤ := do
  let a ← durationCast p (p.common q) count
  let b ← durationCast q (p.common q) count'
  int64 (a - b)

/-- The period `p` is `k` times as long as `q`. -/
def IsMultiple (p q : Period) (k : ℕ) : Prop :=
  p.ratioNum q = k ∧ p.ratioDen q = 1

/-- The period `p` is the `k`-th part of `q`. -/
def IsFraction (p q : Period) (k : ℕ) : Prop :=
  p.ratioNum q = 1 ∧ p.ratioDen q = k

instance (p q : Period) (k : ℕ) : Decidable (IsMultiple p q k) :=
  inferInstanceAs (Decidable (p.ratioNum q = k ∧ p.ratioDen q = 1))

instance (p q : Period) (k : ℕ) : Decidable (IsFraction p q k) :=
  inferInstanceAs (Decidable (p.ratioNum q = 1 ∧ p.ratioDen q = k))

section Cast

variable {p q : Period} {k : ℕ} {count : ℤ}

theorem durationCast_of_multiple (h : IsMultiple p q k)
    (hcount : IsInt64 count) :
    durationCast p q count = int64 (count * k) := by
  obtain ⟨hnum, hden⟩ := h
  by_cases hk : k = 1
  · have hself : count * (k : ℤ) = count := by simp [hk]
    rw [hself, int64, if_pos hcount]
    simp [durationCast, hnum, hden, hk]
  · simp [durationCast, hnum, hden, hk]

theorem durationCast_of_fraction (h : IsFraction p q k)
    (hcount : 0 ≤ count) : durationCast p q count = .ok (count / k) := by
  obtain ⟨hnum, hden⟩ := h
  rw [← Int.tdiv_eq_ediv_of_nonneg hcount]
  by_cases hk : k = 1
  · simp [durationCast, hnum, hden, hk]
  · simp [durationCast, hnum, hden, hk]

end Cast

end EventServer.Support
