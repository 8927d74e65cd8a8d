import Timeline.Calendar.Date

/-! # The prime year

The year that date ranges cover best. A year scores the most months that one range touches in it;
the highest score wins, and of equal ones the earliest year. -/
namespace Timeline.Calendar

/-- The number of months of a year that the days from `first` to `last` touch. -/
def monthsTouched (first last : Date) (year : Int) : Nat :=
  let firstMonth := if year = first.year then first.month else 1
  let lastMonth := if year = last.year then last.month else 12
  lastMonth - firstMonth + 1

def years (first last : Int) : List Int :=
  (List.range (last - first + 1).toNat).map fun n : Nat => first + n

/-- The years that a range touches with the months touched; none if it ends before it starts. -/
def coverage (range : Date × Date) : List (Int × Nat) :=
  if range.2 < range.1 then []
  else (years range.1.year range.2.year).map fun y => (y, monthsTouched range.1 range.2 y)

/-- The better of two years with their scores. -/
def better (a b : Int × Nat) : Int × Nat :=
  if a.2 < b.2 ∨ (a.2 = b.2 ∧ b.1 < a.1) then b else a

/-- The best of the years that any of the ranges touches. -/
def primeYear? (ranges : List (Date × Date)) : Option Int :=
  match ranges.flatMap coverage with
  | [] => none
  | first :: others => some (others.foldl better first).1

end Timeline.Calendar
