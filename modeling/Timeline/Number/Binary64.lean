/-! # Double-precision numbers as exact fractions

A finite number is a sign and `mantissa * 2 ^ exponent`. A quotient of naturals is rounded in exact
arithmetic: the nearest number is taken, and of two equally near the one with the even mantissa. -/
namespace Timeline.Number.Binary64

/-- The number `mantissa * 2 ^ exponent`, negated when `negative` holds. -/
structure Exact where
  negative : Bool
  mantissa : Nat
  exponent : Int
  deriving DecidableEq, Repr

/-- What the bits of a number stand for. -/
inductive Meaning
  | nan
  | infinite (negative : Bool)
  | finite (value : Exact)
  deriving DecidableEq, Repr

/-- The exponent of the smallest positive number. -/
def leastExponent : Int := -1074

/-- Two to the power 52: the least mantissa of a number that is not subnormal, and the first pattern
of bits with an exponent other than zero. -/
def leadingBit : Nat := 4503599627370496

/-- Two to the power 63: the bit of the sign. -/
def signBit : Nat := 9223372036854775808

def meaning (x : Float) : Meaning :=
  let bits := x.toBits.toNat
  let negative := bits / signBit == 1
  let biased := bits / leadingBit % 2048
  let fraction := bits % leadingBit
  if biased = 2047 then
    if fraction = 0 then .infinite negative else .nan
  else if biased = 0 then .finite ⟨negative, fraction, leastExponent⟩
  else .finite ⟨negative, leadingBit + fraction, leastExponent + (biased - 1 : Nat)⟩

def scaleUp (exponent : Int) : Nat := Nat.pow 2 exponent.toNat

def scaleDown (exponent : Int) : Nat := Nat.pow 2 (-exponent).toNat

namespace Exact

def numerator (x : Exact) : Nat := x.mantissa * scaleUp x.exponent

def denominator (x : Exact) : Nat := scaleDown x.exponent

/-- The integer part, rounded toward zero. -/
def truncate (x : Exact) : Int :=
  let whole := x.numerator / x.denominator
  if x.negative then -whole else whole

def isInteger (x : Exact) : Bool := x.numerator % x.denominator == 0

end Exact

/-- The exponent of the largest power of two that is at most `num / den`. -/
def floorLog2 (num den : Nat) : Int :=
  let guess : Int := (num.log2 : Int) - den.log2
  if den * scaleUp guess ≤ num * scaleDown guess then guess else guess - 1

/-- `num / den` rounded to the nearest natural, a tie to the even one. -/
def roundToEven (num den : Nat) : Nat :=
  let whole := num / den
  let rest := 2 * (num % den)
  if den < rest ∨ (den = rest ∧ whole % 2 = 1) then whole + 1 else whole

def infinityBits : Nat := 2047 * leadingBit

/-- The bits of the number nearest to `num / den`; too large a quotient gives infinity. A mantissa
that rounds up to the next power of two carries into the exponent, since the two are adjacent. -/
def magnitudeBits (num den : Nat) : Nat :=
  if num = 0 then 0
  else
    let exponent := max leastExponent (floorLog2 num den - 52)
    let mantissa := roundToEven (num * scaleDown exponent) (den * scaleUp exponent)
    min infinityBits ((exponent - leastExponent).toNat * leadingBit + mantissa)

def ofQuotient (negative : Bool) (num den : Nat) : Float :=
  Float.ofBits (UInt64.ofNat ((if negative then signBit else 0) + magnitudeBits num den))

def ofInt (n : Int) : Float := ofQuotient (n < 0) n.natAbs 1

def nan : Float := 0.0 / 0.0

def infinity : Float := 1.0 / 0.0

/-- What is left of `x` after taking away `y` as often as it fits, with the sign of `x`. -/
def remainder (x y : Float) : Float :=
  match meaning x, meaning y with
  | .finite a, .infinite _ => ofQuotient a.negative a.numerator a.denominator
  | .finite a, .finite b =>
    if b.mantissa = 0 then nan
    else
      let exponent := min a.exponent b.exponent
      let left := a.mantissa * scaleUp (a.exponent - exponent)
      let right := b.mantissa * scaleUp (b.exponent - exponent)
      ofQuotient a.negative (left % right * scaleUp exponent) (scaleDown exponent)
  | _, _ => nan

end Timeline.Number.Binary64
