import Timeline.Calendar.Moment

/-! # Measures

The numbers that weights and places on the axis are given in. Layout uses their arithmetic only, so
it can be read over double-precision numbers and over exact fractions alike. -/
namespace Timeline

class Measure (α : Type) extends Add α, Sub α, Mul α, Div α where
  ofInt : Int → α
  less : α → α → Bool
  isFinite : α → Bool

instance : Measure Float where
  ofInt := Number.Binary64.ofInt
  less x y := x < y
  isFinite := Float.isFinite

namespace Measure

variable {α : Type} [Measure α]

def zero : α := ofInt 0

def one : α := ofInt 1

/-- The number if it lies between two bounds, otherwise the bound that it lies beyond. -/
def clamp (low high x : α) : α :=
  let x := if less x low then low else x
  if less high x then high else x

def sum (xs : List α) : α := xs.foldl (· + ·) zero

end Measure

namespace Duration
open Calendar

/-- Milliseconds of a length of time: the whole ones, and the rest as a fraction added to them. -/
def millis {α : Type} [Measure α] (d : Duration) : α :=
  Measure.ofInt (d.nanos.tdiv nanosPerMilli) +
    Measure.ofInt (d.nanos.tmod nanosPerMilli) / Measure.ofInt nanosPerMilli

end Duration

end Timeline
