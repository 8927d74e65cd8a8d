import Timeline.Number.Shortest

/-! # Number text

The shortest digits of a number, written positionally or with an exponent. Which powers of ten are
positional is the one decision of a `Style`. -/
namespace Timeline.Number

/-- Numbers whose leading digit has a power of ten in this range are written positionally. -/
structure Style where
  leastPositional : Int
  mostPositional : Int
  deriving DecidableEq, Repr

/-- Positional from a millionth up to, but not including, `10 ^ 21`. -/
def style : Style := ⟨-6, 20⟩

namespace Style

def zeros (n : Nat) : List Char := List.replicate n '0'

/-- The digits `ds`, the last of which has the given power of ten, around a point. -/
def positional (ds : List Char) (power : Int) : List Char :=
  if 0 ≤ power then ds ++ zeros power.toNat
  else
    let places := (-power).toNat
    if places < ds.length then
      ds.take (ds.length - places) ++ '.' :: ds.drop (ds.length - places)
    else '0' :: '.' :: zeros (places - ds.length) ++ ds

/-- One digit before the point, the others after it, and the power of ten with its sign. -/
def exponential (ds : List Char) (leading : Int) : List Char :=
  let mantissa :=
    match ds with
    | first :: second :: rest => first :: '.' :: second :: rest
    | _ => ds
  let sign := if leading < 0 then '-' else '+'
  mantissa ++ 'e' :: sign :: Nat.toDigits 10 leading.natAbs

/-- The text of a decimal other than zero. -/
def render (s : Style) (d : Decimal) : List Char :=
  let ds := Nat.toDigits 10 d.coefficient
  let leading := d.exponent + ds.length - 1
  let magnitude :=
    if s.leastPositional ≤ leading ∧ leading ≤ s.mostPositional then positional ds d.exponent
    else exponential ds leading
  if d.negative then '-' :: magnitude else magnitude

end Style

/-- The text of a number; both zeros are `0`. -/
def text (x : Float) : String :=
  match Binary64.meaning x with
  | .nan => "NaN"
  | .infinite false => "Infinity"
  | .infinite true => "-Infinity"
  | .finite exact =>
    if exact.mantissa = 0 then "0" else String.ofList (style.render (Shortest.decimal exact))

end Timeline.Number
