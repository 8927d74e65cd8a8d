import Timeline.Number.Decimal

/-! # The fewest digits that read back

For 1, 2, … 17 digits the two neighbours of the number on that decimal grid are tried, in exact
arithmetic, against the interval of reals that round to it. The first grid with a hit gives the
digits; of two hits the nearer is taken, of two equally near the larger. -/
namespace Timeline.Number.Shortest
open Binary64

/-- The reals that round to a number, over one denominator. Both ends belong to it when `closed`
holds, neither does otherwise. -/
structure Interval where
  low : Nat
  value : Nat
  high : Nat
  denominator : Nat
  closed : Bool
  deriving DecidableEq, Repr

/-- Below a power of two the numbers lie twice as dense as above it. The smallest power has only
equally spaced neighbours. -/
def interval (x : Exact) : Interval :=
  let exponent := x.exponent - 2
  let up := scaleUp exponent
  let below := if x.mantissa = leadingBit ∧ leastExponent < x.exponent then 1 else 2
  { low := (4 * x.mantissa - below) * up
    value := 4 * x.mantissa * up
    high := (4 * x.mantissa + 2) * up
    denominator := scaleDown exponent
    closed := x.mantissa % 2 == 0 }

def Interval.holds (i : Interval) (num den : Nat) : Bool :=
  let point := num * i.denominator
  if i.closed then i.low * den ≤ point && point ≤ i.high * den
  else i.low * den < point && point < i.high * den

/-- Large enough that every positive number times `10 ^ headroom` is at least one. -/
def headroom : Nat := 400

/-- The power of ten of the leading digit of a positive number. -/
def leadingPower (i : Interval) : Int :=
  (Decimal.digitCount (i.value * Nat.pow 10 headroom / i.denominator) : Int) - 1 - headroom

/-- The candidate with the given power of ten for its last digit, if one of the two neighbours of
the number is in the interval. -/
def onGrid? (i : Interval) (power : Int) : Option Nat :=
  let up := Nat.pow 10 power.toNat
  let down := Nat.pow 10 (-power).toNat
  let floor := i.value * down / (i.denominator * up)
  let hit (n : Nat) : Bool := i.holds (n * up) down
  let distanceBelow := i.value * down - floor * (i.denominator * up)
  let distanceAbove := (floor + 1) * (i.denominator * up) - i.value * down
  match hit floor, hit (floor + 1) with
  | true, true => some (if distanceBelow < distanceAbove then floor else floor + 1)
  | true, false => some floor
  | false, true => some (floor + 1)
  | false, false => none

/-- Tries the grids from the given power of ten downward. -/
def search (i : Interval) : Nat → Int → Nat × Int
  | 0, power => ((onGrid? i power).getD 0, power)
  | tries + 1, power =>
    match onGrid? i power with
    | some n => (n, power)
    | none => search i tries (power - 1)

/-- The digits without zeros at the end, and the power of ten of the last one. -/
def stripZeros : Nat → Nat × Int → Nat × Int
  | 0, r => r
  | steps + 1, (n, power) =>
    if n ≠ 0 ∧ n % 10 = 0 then stripZeros steps (n / 10, power + 1) else (n, power)

/-- The shortest decimal that rounds to a finite number. -/
def decimal (x : Exact) : Decimal :=
  if x.mantissa = 0 then ⟨x.negative, 0, 0⟩
  else
    let i := interval x
    let (n, power) := stripZeros 17 (search i 16 (leadingPower i))
    ⟨x.negative, n, power⟩

end Timeline.Number.Shortest
