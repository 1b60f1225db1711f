/-
# The proleptic Gregorian calendar

Years are counted from 0 and months from 1.  `dayNumber` numbers the days from
the first of January of the year 0; it keeps the order of dates, so a day has one
date.
-/

import Mathlib.Tactic

namespace Calendar

/-- Leap years. -/
def IsLeap (y : ℕ) : Prop := 4 ∣ y ∧ (¬ 100 ∣ y ∨ 400 ∣ y)

/-- Whether a year is a leap year is decided by divisions. -/
instance : DecidablePred IsLeap := fun y =>
  inferInstanceAs (Decidable (4 ∣ y ∧ (¬ 100 ∣ y ∨ 400 ∣ y)))

/-- The days of a year. -/
def yearLength (y : ℕ) : ℕ := if IsLeap y then 366 else 365

/-- The days of month `m` of year `y`. -/
def monthLength (y : ℕ) : ℕ → ℕ
  | 1 => 31
  | 2 => if IsLeap y then 29 else 28
  | 3 => 31
  | 4 => 30
  | 5 => 31
  | 6 => 30
  | 7 => 31
  | 8 => 31
  | 9 => 30
  | 10 => 31
  | 11 => 30
  | 12 => 31
  | _ => 0

/-- The days before year `y`. -/
def daysBeforeYear (y : ℕ) : ℕ := 365 * y + (y + 3) / 4 - (y + 99) / 100 + (y + 399) / 400

/-- The days of year `y` before month `m`. -/
def daysBeforeMonth (y : ℕ) : ℕ → ℕ
  | 0 => 0
  | m + 1 => daysBeforeMonth y m + monthLength y m

/-- The number of day `d` of month `m` of year `y`. -/
def dayNumber (y m d : ℕ) : ℕ := daysBeforeYear y + daysBeforeMonth y m + (d - 1)

/-- **A date of the calendar**: the month is one of the year, and the day one of the month.
-/
structure ValidDate (y m d : ℕ) : Prop where
  month_pos : 1 ≤ m
  month_le : m ≤ 12
  day_pos : 1 ≤ d
  day_le : d ≤ monthLength y m

variable {y m d y' m' d' : ℕ}

/-- The days before the next year are those before this one and its own. -/
theorem daysBeforeYear_succ (y : ℕ) : daysBeforeYear (y + 1) = daysBeforeYear y + yearLength y := by
  unfold daysBeforeYear yearLength
  by_cases h : IsLeap y
  · rw [if_pos h]
    unfold IsLeap at h
    omega
  · rw [if_neg h]
    unfold IsLeap at h
    omega

/-- The days before the next month are those before this one and its own. -/
theorem daysBeforeMonth_succ (y m : ℕ) :
    daysBeforeMonth y (m + 1) = daysBeforeMonth y m + monthLength y m := rfl

/-- Within a year, later months begin later. -/
theorem daysBeforeMonth_mono (y : ℕ) : Monotone (daysBeforeMonth y) :=
  monotone_nat_of_le_succ fun _ => Nat.le_add_right ..

/-- Later years begin later. -/
theorem daysBeforeYear_mono : Monotone daysBeforeYear :=
  monotone_nat_of_le_succ fun y => by
    rw [daysBeforeYear_succ]
    exact Nat.le_add_right ..

/-- The twelve months are the year. -/
theorem daysBeforeMonth_year (y : ℕ) : daysBeforeMonth y 13 = yearLength y := by
  unfold yearLength
  by_cases h : IsLeap y
  · simp [daysBeforeMonth, monthLength, h]
  · simp [daysBeforeMonth, monthLength, h]

/-- **A later month has later days.** -/
theorem dayNumber_lt (h : ValidDate y m d) (h' : ValidDate y' m' d')
    (hlt : 12 * y + m < 12 * y' + m') : dayNumber y m d < dayNumber y' m' d' := by
  have hmonth : daysBeforeMonth y m + (d - 1) < daysBeforeMonth y (m + 1) := by
    have := h.day_pos
    have := h.day_le
    rw [daysBeforeMonth_succ]
    omega
  have h₁ := h.month_pos
  have h₂ := h.month_le
  have h₁' := h'.month_pos
  have h₂' := h'.month_le
  unfold dayNumber
  rcases Nat.lt_or_ge y y' with hy | hy
  · have hyear := daysBeforeMonth_mono y (show m + 1 ≤ 13 by omega)
    rw [daysBeforeMonth_year] at hyear
    have hnext := daysBeforeYear_mono (show y + 1 ≤ y' from hy)
    rw [daysBeforeYear_succ] at hnext
    omega
  · obtain rfl : y = y' := by omega
    have := daysBeforeMonth_mono y (show m + 1 ≤ m' by omega)
    omega

/-- The month of a day no later than another is no later. -/
theorem month_le_of_dayNumber_le (h : ValidDate y m d) (h' : ValidDate y' m' d')
    (hle : dayNumber y m d ≤ dayNumber y' m' d') : 12 * y + m ≤ 12 * y' + m' := by
  by_contra hlt
  exact absurd (dayNumber_lt h' h (by omega)) (by omega)

/-- **A day has one date.** -/
theorem dayNumber_inj (h : ValidDate y m d) (h' : ValidDate y' m' d')
    (heq : dayNumber y m d = dayNumber y' m' d') : y = y' ∧ m = m' ∧ d = d' := by
  have hle := month_le_of_dayNumber_le h h' heq.le
  have hle' := month_le_of_dayNumber_le h' h heq.ge
  have h₁ := h.month_pos
  have h₂ := h.month_le
  have h₁' := h'.month_pos
  have h₂' := h'.month_le
  obtain rfl : y = y' := by omega
  obtain rfl : m = m' := by omega
  have := h.day_pos
  have := h'.day_pos
  unfold dayNumber at heq
  exact ⟨rfl, rfl, by omega⟩

end Calendar
