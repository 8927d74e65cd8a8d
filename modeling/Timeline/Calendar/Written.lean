import Timeline.Calendar.Moment

/-! # Moments in messages

The date and the time of day with a space between them. Years of four digits have no sign, others
have one and at least four digits. A part of a second is written with three, six or nine digits, the
fewest that are exact; a leap second is the second 60. -/
namespace Timeline
open Calendar

/-- Decimal digits of a natural, with zeros before them up to a width. -/
def padded (width n : Nat) : List Char :=
  let ds := Nat.toDigits 10 n
  List.replicate (width - ds.length) '0' ++ ds

namespace Date

def writtenYear (year : Int) : List Char :=
  if 0 ≤ year ∧ year ≤ 9999 then padded 4 year.natAbs
  else (if year < 0 then '-' else '+') :: padded 4 year.natAbs

def written (d : Date) : List Char :=
  writtenYear d.year ++ '-' :: padded 2 d.month ++ '-' :: padded 2 d.day

end Date

namespace TimeOfDay

/-- The part of a second: nothing if there is none. -/
def writtenFraction (nano : Nat) : List Char :=
  if nano = 0 then []
  else if nano % 1000000 = 0 then '.' :: padded 3 (nano / 1000000)
  else if nano % 1000 = 0 then '.' :: padded 6 (nano / 1000)
  else '.' :: padded 9 nano

def written (t : TimeOfDay) : List Char :=
  let second := if t.isLeap then t.second + 1 else t.second
  let nano := if t.isLeap then t.nano - nanosPerSecond else t.nano
  padded 2 t.hour ++ ':' :: padded 2 t.minute ++ ':' :: padded 2 second ++ writtenFraction nano

end TimeOfDay

namespace Moment

def written (m : Moment) : List Char := m.date.written ++ ' ' :: m.time.written

def text (m : Moment) : String := String.ofList m.written

end Moment

end Timeline
