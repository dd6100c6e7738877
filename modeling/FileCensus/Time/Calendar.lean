/-!
# The Gregorian calendar

Days are numbered from 1 January of the year 1, without end in both directions, and a date is found
from its number: first the year, whose estimate from the mean year is off by at most one, then the
month from the lengths of the months.
-/

namespace FileCensus.Calendar

structure Date where
  year : Int
  month : Nat
  day : Nat
  deriving DecidableEq, Repr

def isLeap (year : Int) : Bool := year % 4 = 0 && (year % 100 ≠ 0 || year % 400 = 0)

def daysBeforeYear (year : Int) : Int :=
  365 * (year - 1) + (year - 1) / 4 - (year - 1) / 100 + (year - 1) / 400

def monthLengths (leap : Bool) : List Nat :=
  [31, if leap then 29 else 28, 31, 30, 31, 30, 31, 31, 30, 31, 30, 31]

def daysBeforeMonth (leap : Bool) (month : Nat) : Nat :=
  ((monthLengths leap).take (month - 1)).foldl (· + ·) 0

def monthLength (leap : Bool) (month : Nat) : Nat :=
  if month = 0 then 0 else (monthLengths leap).getD (month - 1) 0

/-- The dates that the calendar has. -/
def Date.exists (d : Date) : Bool := 1 ≤ d.day && d.day ≤ monthLength (isLeap d.year) d.month

def Date.number (d : Date) : Int :=
  daysBeforeYear d.year + daysBeforeMonth (isLeap d.year) d.month + d.day - 1

def yearOf (number : Int) : Int :=
  let year := number * 400 / 146097 + 1
  if number < daysBeforeYear year then year - 1
  else if daysBeforeYear (year + 1) ≤ number then year + 1
  else year

/-- The month and day of a day of the year, counted from `month`. -/
def monthAndDay (month : Nat) : List Nat → Nat → Nat × Nat
  | [], dayOfYear => (month, dayOfYear + 1)
  | length :: rest, dayOfYear =>
    if dayOfYear < length then (month, dayOfYear + 1)
    else monthAndDay (month + 1) rest (dayOfYear - length)

def Date.ofNumber (number : Int) : Date :=
  let year := yearOf number
  let dayOfYear := (number - daysBeforeYear year).toNat
  let (month, day) := monthAndDay 1 (monthLengths (isLeap year)) dayOfYear
  ⟨year, month, day⟩

/-- The year of a day begins no later than the day, and the next year after it. -/
theorem yearOf_bounds (n : Int) :
    daysBeforeYear (yearOf n) ≤ n ∧ n < daysBeforeYear (yearOf n + 1) := by
  simp only [yearOf]
  generalize hy : n * 400 / 146097 + 1 = y
  have low : 146097 * (y - 1) ≤ 400 * n := by omega
  have high : 400 * n < 146097 * y := by omega
  by_cases h : n < daysBeforeYear y
  · simp only [if_pos h]
    simp only [daysBeforeYear] at *
    omega
  · by_cases h' : daysBeforeYear (y + 1) ≤ n
    · simp only [if_neg h, if_pos h']
      simp only [daysBeforeYear] at *
      omega
    · simp only [if_neg h, if_neg h']
      omega

end FileCensus.Calendar
