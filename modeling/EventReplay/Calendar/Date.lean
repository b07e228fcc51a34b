/-!
# Dates of the proleptic Gregorian calendar

A date and the count of days since 1970-01-01 (`Date.toDays`, `Date.ofDays`), for every year from
`Date.firstYear` to `Date.lastYear`. Years before 1 count down through 0.
-/

set_option autoImplicit false

namespace EventReplay

/-- A year, a month from 1 and a day from 1. -/
structure Date where
  year : Int
  month : Nat
  day : Nat
deriving DecidableEq, Repr

namespace Date

/-- The first year that a date can have. -/
def firstYear : Int := -262143

/-- The last year that a date can have. -/
def lastYear : Int := 262142

/-- Every fourth year has 366 days, of the centuries only every fourth. -/
def isLeap (year : Int) : Bool :=
  year % 4 = 0 && (year % 100 ≠ 0 || year % 400 = 0)

/-- The days of a year before the month starts; months are numbered from 1. -/
def daysBeforeMonth (leap : Bool) (month : Nat) : Nat :=
  [0, 0, 31, 59, 90, 120, 151, 181, 212, 243, 273, 304, 334, 365].getD month 365
    + (if leap && 2 < month then 1 else 0)

/-- The number of days of a month. -/
def daysInMonth (leap : Bool) (month : Nat) : Nat :=
  daysBeforeMonth leap (month + 1) - daysBeforeMonth leap month

/-- The days from 1970-01-01 to the first of January of a year. -/
def yearStart (year : Int) : Int :=
  365 * (year - 1970) + (year - 1) / 4 - (year - 1) / 100 + (year - 1) / 400 - 477

/-- The year that holds a day. The average length of a year gives it up to one. -/
def yearOfDay (days : Int) : Int :=
  let guess := 1970 + 400 * days / 146097
  if days < yearStart guess then guess - 1
  else if yearStart (guess + 1) ≤ days then guess + 1
  else guess

/-- The last month that starts no later than a day of the year; days are counted from 0. -/
def monthOfDay (leap : Bool) (dayOfYear : Nat) : Nat :=
  (([12, 11, 10, 9, 8, 7, 6, 5, 4, 3, 2].find? fun month =>
    daysBeforeMonth leap month ≤ dayOfYear)).getD 1

/-- A date that the calendar has, in a year that can be told. -/
def IsValid (date : Date) : Prop :=
  firstYear ≤ date.year ∧ date.year ≤ lastYear ∧ 1 ≤ date.month ∧ date.month ≤ 12 ∧
    1 ≤ date.day ∧ date.day ≤ daysInMonth (isLeap date.year) date.month

instance (date : Date) : Decidable date.IsValid := by
  unfold IsValid
  infer_instance

/-- The days from 1970-01-01 to a date. -/
def toDays (date : Date) : Int :=
  yearStart date.year + daysBeforeMonth (isLeap date.year) date.month + date.day - 1

/-- The date that lies a number of days after 1970-01-01. -/
def ofDays (days : Int) : Date :=
  let year := yearOfDay days
  let dayOfYear := (days - yearStart year).toNat
  let month := monthOfDay (isLeap year) dayOfYear
  ⟨year, month, dayOfYear - daysBeforeMonth (isLeap year) month + 1⟩

/-- A day lies in its year. -/
theorem yearStart_yearOfDay (days : Int) :
    yearStart (yearOfDay days) ≤ days ∧ days < yearStart (yearOfDay days + 1) := by
  have lower : yearStart (1970 + 400 * days / 146097 - 1) ≤ days := by
    simp only [yearStart]
    omega
  have upper : days < yearStart (1970 + 400 * days / 146097 + 1 + 1) := by
    simp only [yearStart]
    omega
  dsimp only [yearOfDay]
  split
  · rename_i h
    simpa using And.intro lower h
  · split
    · rename_i h
      exact ⟨h, upper⟩
    · rename_i h h'
      omega

end Date

end EventReplay
