import Timeline.Calendar.Moment

/-! # Shifts by months

A shift moves by whole calendar months. The day is kept as far as the month allows it, or is the
last of its month if the shift starts from such a day; the time of day is that of the target. How
long months are stands in a table. -/
namespace Timeline

namespace Calendar

/-- No year outside the supported ones is a leap year. -/
def isLeapYear (year : Int) : Bool := hasYear year && hasLeapDay year

/-- The lengths of the months, numbered from 1, as a table. -/
def daysInMonth (year : Int) (month : Nat) : Nat :=
  match month with
  | 2 => if isLeapYear year then 29 else 28
  | 4 | 6 | 9 | 11 => 30
  | _ => 31

end Calendar

open Calendar

structure MonthShift where
  months : Int
  toMonthEnd : Bool
  time : TimeOfDay
  deriving DecidableEq

namespace Date

/-- Months from the first January of the year 0. -/
def monthNumber (d : Date) : Int := d.year * 12 + (d.month - 1 : Nat)

def isMonthEnd (d : Date) : Bool := d.day == daysInMonth d.year d.month

end Date

namespace MonthShift

def between (source target : Moment) : MonthShift :=
  ⟨target.date.monthNumber - source.date.monthNumber, source.date.isMonthEnd,
    target.time.wholeSecond⟩

def date? (s : MonthShift) (d : Date) : Option Date :=
  let total := d.monthNumber + s.months
  let year := total / 12
  let month := (total % 12).toNat + 1
  let last := daysInMonth year month
  Date.ofYMD? year month (if s.toMonthEnd then last else min d.day last)

/-- The moment that a moment is shifted to, unless it lies outside the supported years. -/
def moment? (s : MonthShift) (m : Moment) : Option Moment := (s.date? m.date).map (⟨·, s.time⟩)

end MonthShift

end Timeline
