import Timeline.Number.Binary64
import Timeline.Text.Digits

/-! # Decimal text

A decimal is a coefficient and a power of ten. Text is read in one pass: an optional sign, digits
with an optional point and at least one digit on either side of it, and an optional exponent. -/
namespace Timeline.Number
open Text

/-- The number `coefficient * 10 ^ exponent`, negated when `negative` holds. -/
structure Decimal where
  negative : Bool
  coefficient : Nat
  exponent : Int
  deriving DecidableEq, Repr

namespace Decimal

def readSign : List Char → Bool × List Char
  | '-' :: rest => (true, rest)
  | '+' :: rest => (false, rest)
  | cs => (false, cs)

def readFraction : List Char → List Char × List Char
  | '.' :: rest => digits rest
  | cs => ([], cs)

/-- The exponent that ends a number: nothing, or a mark, a sign and digits up to the end. -/
def readExponent? : List Char → Option Int
  | [] => some 0
  | mark :: rest =>
    if mark = 'e' ∨ mark = 'E' then
      let (negative, rest) := readSign rest
      let (ds, rest) := digits rest
      if ds.isEmpty ∨ ¬ rest.isEmpty then none
      else some (if negative then -(ofDigits ds : Int) else ofDigits ds)
    else none

def read? (cs : List Char) : Option Decimal :=
  let (negative, cs) := readSign cs
  let (whole, cs) := digits cs
  let (fraction, cs) := readFraction cs
  if whole.isEmpty ∧ fraction.isEmpty then none
  else
    (readExponent? cs).map fun exponent =>
      ⟨negative, ofDigits (whole ++ fraction), exponent - fraction.length⟩

/-- How many digits the natural has; zero has none. -/
def digitCount (n : Nat) : Nat := if n = 0 then 0 else (Nat.toDigits 10 n).length

/-- Decimals from `10 ^ overflowPower` on are infinite. -/
def overflowPower : Int := 310

/-- Decimals below `10 ^ underflowPower` are zero. -/
def underflowPower : Int := -330

/-- The nearest double-precision number. The two bounds lie beyond the largest and the smallest
number, so they only keep the powers of ten small. -/
def toFloat (d : Decimal) : Float :=
  let size := digitCount d.coefficient + d.exponent
  if d.coefficient = 0 ∨ size < underflowPower then Binary64.ofQuotient d.negative 0 1
  else if overflowPower < size then (if d.negative then -Binary64.infinity else Binary64.infinity)
  else
    Binary64.ofQuotient d.negative (d.coefficient * Nat.pow 10 d.exponent.toNat)
      (Nat.pow 10 (-d.exponent).toNat)

end Decimal

end Timeline.Number
