import MatchAlgebra.Number.Binary64

/-!
# Shortest text of a floating-point number

The text holds the fewest decimal digits that still lie nearer to the number than to any other,
and among those the digits nearest to it, an exact tie going away from zero.  It is always
positional: there is no exponent, and whole numbers have no point.

All of it is exact arithmetic on natural numbers.  Lengths are taken in half units, `2^-1075`,
so that the ends of the rounding interval are whole numbers too.
-/

namespace MatchAlgebra

namespace Binary64

/-- The numbers that round to a given one, in half units.  Its ends belong to it exactly if the
word is even. -/
structure RoundingInterval where
  low : Nat
  middle : Nat
  high : Nat
  closed : Bool

/-- Below a power of two the neighbours lie half as far away as above it. -/
def roundingInterval (x : Binary64) : RoundingInterval :=
  let step := twoPow (x.exponentField - 1)
  let below := if x.fractionField = 0 ∧ 2 ≤ x.exponentField then step / 2 else step
  let middle := 2 * x.units
  ⟨middle - below, middle, middle + step, x.magnitude % 2 = 0⟩

/-- Whether `num / den` half units round to the number. -/
def RoundingInterval.holds (interval : RoundingInterval) (num den : Nat) : Bool :=
  if interval.closed then interval.low * den ≤ num && num ≤ interval.high * den
  else interval.low * den < num && num < interval.high * den

/-- The exponent of the leading decimal digit of a positive number. -/
def leadingExponent (x : Binary64) : Int :=
  (Digits.ofNat (x.units * tenPow 324 / twoPow 1074)).length - 325

/-- The multiple of `10^exponent` that rounds to the number, if there is one: of the two that
enclose the number the nearer, and the upper one at equal distance. -/
def onGrid? (interval : RoundingInterval) (exponent : Int) : Option Nat :=
  let num := tenPow exponent.toNat * twoPow 1075
  let den := tenPow (-exponent).toNat
  let middle := interval.middle * den
  let floor := middle / num
  match interval.holds (floor * num) den, interval.holds ((floor + 1) * num) den with
  | true, true => some (if 2 * (middle - floor * num) < num then floor else floor + 1)
  | true, false => some floor
  | false, true => some (floor + 1)
  | false, false => none

/-- Digits and exponent of the shortest decimal: the first grid with a hit, from coarse to fine.
Seventeen digits always suffice. -/
def shortest (x : Binary64) : Nat × Int :=
  let top := x.leadingExponent + 1
  let hit := (List.range 18).findSome? fun (digits : Nat) =>
    let exponent := top - digits
    (onGrid? x.roundingInterval exponent).map (·, exponent)
  hit.getD (0, 0)

def text (x : Binary64) : String :=
  if x.isNaN then "NaN"
  else
    let body :=
      if x.isInfinite then "inf".toList
      else if x.magnitude = 0 then ['0']
      else
        let (digits, exponent) := x.shortest
        Digits.scaled digits exponent
    String.ofList (Digits.sign x.isNegative ++ body)

end Binary64

end MatchAlgebra
