import Timeline.Calendar.Date
import Timeline.Number.Binary64

/-! # Moments

A date with a time of day, and the differences between them. A leap second is the last second of its
minute with a second more of nanoseconds. -/
namespace Timeline

namespace Calendar

def nanosPerSecond : Nat := 1000000000

def nanosPerMilli : Nat := 1000000

def secondsPerDay : Nat := 86400

/-- A time within a leap second has a whole second of nanoseconds or more. Leap seconds after other
seconds than 59 are left out: a clock can be set to one, but no text that is read gives it. -/
def IsTime (hour minute second nano : Nat) : Prop :=
  hour < 24 ∧ minute < 60 ∧ second < 60 ∧
    (nano < nanosPerSecond ∨ (second = 59 ∧ nano < 2 * nanosPerSecond))

instance (hour minute second nano : Nat) : Decidable (IsTime hour minute second nano) :=
  inferInstanceAs (Decidable (_ ∧ _ ∧ _ ∧ _))

end Calendar

open Calendar

structure TimeOfDay where
  hour : Nat
  minute : Nat
  second : Nat
  nano : Nat
  valid : IsTime hour minute second nano
  deriving DecidableEq

namespace TimeOfDay

def ofHMSN? (hour minute second nano : Nat) : Option TimeOfDay :=
  if valid : IsTime hour minute second nano then some ⟨hour, minute, second, nano, valid⟩ else none

def midnight : TimeOfDay := ⟨0, 0, 0, 0, by decide⟩

def secondOfDay (t : TimeOfDay) : Nat := 3600 * t.hour + 60 * t.minute + t.second

/-- Is this within a leap second? -/
def isLeap (t : TimeOfDay) : Bool := nanosPerSecond ≤ t.nano

/-- The time without its part of a second; a leap second is left too. -/
def wholeSecond (t : TimeOfDay) : TimeOfDay :=
  ⟨t.hour, t.minute, t.second, 0, t.valid.1, t.valid.2.1, t.valid.2.2.1, .inl (by decide)⟩

protected def lt (a b : TimeOfDay) : Prop :=
  a.secondOfDay < b.secondOfDay ∨ (a.secondOfDay = b.secondOfDay ∧ a.nano < b.nano)

instance : LT TimeOfDay := ⟨TimeOfDay.lt⟩

instance (a b : TimeOfDay) : Decidable (a < b) := inferInstanceAs (Decidable (_ ∨ _))

/-- Nanoseconds from `a` to `b` of one day. A leap second of the earlier one lies between them. -/
def nanosUntil (a b : TimeOfDay) : Int :=
  let leap : Int :=
    if a.secondOfDay < b.secondOfDay ∧ a.isLeap then 1
    else if b.secondOfDay < a.secondOfDay ∧ b.isLeap then -1
    else 0
  ((b.secondOfDay : Int) - a.secondOfDay + leap) * nanosPerSecond + ((b.nano : Int) - a.nano)

end TimeOfDay

/-- An instant of the time axis, on the clock on the wall. -/
structure Moment where
  date : Date
  time : TimeOfDay
  deriving DecidableEq

/-- A length of time in nanoseconds. -/
structure Duration where
  nanos : Int
  deriving DecidableEq, Repr

namespace Moment

def origin : Moment := ⟨.origin, .midnight⟩

protected def lt (a b : Moment) : Prop := a.date < b.date ∨ (a.date = b.date ∧ a.time < b.time)

instance : LT Moment := ⟨Moment.lt⟩

instance (a b : Moment) : Decidable (a < b) := inferInstanceAs (Decidable (_ ∨ _))

protected def le (a b : Moment) : Prop := ¬ b < a

instance : LE Moment := ⟨Moment.le⟩

instance (a b : Moment) : Decidable (a ≤ b) := inferInstanceAs (Decidable (¬ _))

/-- The time from one moment to another; leap seconds count within a day only. -/
def durationTo (a b : Moment) : Duration :=
  ⟨(b.date.dayNumber - a.date.dayNumber) * (secondsPerDay * nanosPerSecond : Nat) +
    a.time.nanosUntil b.time⟩

/-- The moment a number of milliseconds after the origin. -/
def ofMillis? (millis : Int) : Option Moment :=
  let seconds := millis / 1000
  let second := (seconds % secondsPerDay).toNat
  match Date.ofDayNumber? (seconds / secondsPerDay),
    TimeOfDay.ofHMSN? (second / 3600) (second / 60 % 60) (second % 60)
      ((millis % 1000).toNat * nanosPerMilli) with
  | some date, some time => some ⟨date, time⟩
  | _, _ => none

end Moment

namespace Duration

/-- The longest time in milliseconds, in either direction: the largest signed word of 64 bits. -/
def longestMillis : Nat := 9223372036854775807

/-- Seconds and nanoseconds of the second after them. -/
def ofParts? (seconds : Int) (nanos : Nat) : Option Duration :=
  let total := seconds * nanosPerSecond + nanos
  if nanos < nanosPerSecond ∧ total.natAbs ≤ longestMillis * nanosPerMilli then some ⟨total⟩
  else none

end Duration

end Timeline
