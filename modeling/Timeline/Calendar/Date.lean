/-! # Dates

Dates of the proleptic Gregorian calendar within the supported years, with their order and their
number of days from the first of January 1970. The calendar is given by the days before each year
and before each month of a year; a month is as long as there are days to the next one. -/
namespace Timeline

namespace Calendar

def firstYear : Int := -262143

def lastYear : Int := 262142

def hasYear (year : Int) : Bool := firstYear ≤ year && year ≤ lastYear

/-- Every fourth year has a leap day, but of the full centuries only every fourth. -/
def hasLeapDay (year : Int) : Bool := year % 4 == 0 && (year % 100 != 0 || year % 400 == 0)

/-- Days from the first of January of the year 1 to that of another year. -/
def daysBeforeYear (year : Int) : Int :=
  365 * (year - 1) + (year - 1) / 4 - (year - 1) / 100 + (year - 1) / 400

/-- Days from the first of January to the first of a month, numbered from 1; the month 13 is the
next January. From March on, every five months take 153 days. -/
def daysBeforeMonth (year : Int) (month : Nat) : Nat :=
  if month ≤ 2 then 31 * (month - 1)
  else 59 + (153 * (month - 3) + 2) / 5 + if hasLeapDay year then 1 else 0

/-- The days from the first of a month to the first of the next one. -/
def monthLength (year : Int) (month : Nat) : Nat :=
  daysBeforeMonth year (month + 1) - daysBeforeMonth year month

def IsDate (year : Int) (month day : Nat) : Prop :=
  hasYear year = true ∧ 1 ≤ month ∧ month ≤ 12 ∧ 1 ≤ day ∧ day ≤ monthLength year month

instance (year : Int) (month day : Nat) : Decidable (IsDate year month day) :=
  inferInstanceAs (Decidable (_ ∧ _ ∧ _ ∧ _ ∧ _))

/-- Days from the first of January of the year 1 to that of 1970. -/
def daysBeforeOrigin : Int := 719162

end Calendar

open Calendar

structure Date where
  year : Int
  month : Nat
  day : Nat
  valid : IsDate year month day
  deriving DecidableEq

namespace Date

def ofYMD? (year : Int) (month day : Nat) : Option Date :=
  if valid : IsDate year month day then some ⟨year, month, day, valid⟩ else none

def origin : Date := ⟨1970, 1, 1, by decide⟩

protected def lt (a b : Date) : Prop :=
  a.year < b.year ∨ (a.year = b.year ∧ (a.month < b.month ∨ (a.month = b.month ∧ a.day < b.day)))

instance : LT Date := ⟨Date.lt⟩

instance (a b : Date) : Decidable (a < b) := inferInstanceAs (Decidable (_ ∨ _))

/-- Days from the first of January 1970. -/
def dayNumber (d : Date) : Int :=
  daysBeforeYear d.year + daysBeforeMonth d.year d.month + (d.day - 1 : Nat) - daysBeforeOrigin

/-- The year with the day that has a number of days before it, counted from the year 1. The estimate
by the length of 400 years is off by at most one. -/
def yearOfDays (days : Int) : Int :=
  let guess := days * 400 / 146097 + 1
  if days < daysBeforeYear guess then guess - 1
  else if daysBeforeYear (guess + 1) ≤ days then guess + 1
  else guess

/-- The month and day of the day of a year with a number of days before it, from a month on. -/
def monthDay (year : Int) (month : Nat) : Nat → Nat → Nat × Nat
  | 0, days => (month, days + 1)
  | months + 1, days =>
    if days < monthLength year month then (month, days + 1)
    else monthDay year (month + 1) months (days - monthLength year month)

/-- The date a number of days from the first of January 1970. -/
def ofDayNumber? (n : Int) : Option Date :=
  let days := n + daysBeforeOrigin
  let year := yearOfDays days
  let (month, day) := monthDay year 1 11 (days - daysBeforeYear year).toNat
  ofYMD? year month day

end Date

end Timeline
