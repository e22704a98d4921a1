import MatchAlgebra.Number.Digits

/-!
# Binary64: floating-point numbers as words

A number is its 64-bit word.  Every finite number is a whole multiple of `2^-1074`, the least
positive one, so a magnitude is a natural number of those units, sums of two numbers are exact
integers, and products and quotients are exact ratios.  Rounding happens once, in `ofRatio`:
to the nearest number, a half going to the even word.

Two words are the same number only if all bits agree, so `-0` and `0` differ and a NaN equals
itself.  `compare` is the total order of IEEE 754: `-NaN < -∞ < … < -0 < 0 < … < ∞ < NaN`.
-/

namespace MatchAlgebra

structure Binary64 where
  bits : UInt64
  deriving DecidableEq

namespace Binary64

/-! ## Fields of a word -/

/-- The word of positive infinity: the least magnitude that is not finite. -/
def infinityWord : Nat := 2047 * twoPow 52

def isNegative (x : Binary64) : Bool := twoPow 63 ≤ x.bits.toNat

/-- The word without its sign bit.  Magnitudes are ordered as the numbers they stand for. -/
def magnitude (x : Binary64) : Nat := x.bits.toNat % twoPow 63

def isNaN (x : Binary64) : Bool := infinityWord < x.magnitude

def isInfinite (x : Binary64) : Bool := x.magnitude = infinityWord

def exponentField (x : Binary64) : Nat := x.magnitude / twoPow 52

def fractionField (x : Binary64) : Nat := x.magnitude % twoPow 52

/-- How many units `2^-1074` a finite number is away from zero. -/
def units (x : Binary64) : Nat :=
  if x.exponentField = 0 then x.fractionField
  else (twoPow 52 + x.fractionField) * twoPow (x.exponentField - 1)

/-- A finite number in units, with its sign. -/
def signedUnits (x : Binary64) : Int :=
  if x.isNegative then -(x.units : Int) else x.units

def ofParts (negative : Bool) (magnitude : Nat) : Binary64 :=
  ⟨UInt64.ofNat (if negative then twoPow 63 + magnitude else magnitude)⟩

/-! ## Order -/

/-- Negative words descend below zero as their magnitude grows; `-0` lies just below `0`. -/
def orderKey (x : Binary64) : Int :=
  if x.isNegative then -(x.magnitude : Int) - 1 else x.magnitude

def compare (x y : Binary64) : Ordering := Ord.compare x.orderKey y.orderKey

/-! ## Rounding -/

/-- The whole number nearest to `num / den`, a half going to the even one. -/
def roundHalfEven (num den : Nat) : Nat :=
  let quotient := num / den
  let remainder := num % den
  if 2 * remainder < den then quotient
  else if den < 2 * remainder then quotient + 1
  else if quotient % 2 = 0 then quotient
  else quotient + 1

/-- The number nearest to `num / den` units.  Above the largest finite number lies infinity.

Numbers with the same exponent lie `2^step` units apart; a carry out of the fraction moves the
word to the next exponent by itself. -/
def ofRatio (negative : Bool) (num den : Nat) : Binary64 :=
  let step := (num / den).log2 - 52
  let word := step * twoPow 52 + roundHalfEven num (den * twoPow step)
  ofParts negative (if word < infinityWord then word else infinityWord)

def ofInt (n : Int) : Binary64 := ofRatio (n < 0) (n.natAbs * twoPow 1074) 1

/-! ## Arithmetic -/

/-- The NaN that an operation without a result gives. -/
def invalid : Binary64 := ofParts true (infinityWord + twoPow 51)

/-- A NaN operand with its quiet bit set, which is what arithmetic passes on. -/
def quieted (x : Binary64) : Binary64 := ⟨x.bits ||| UInt64.ofNat (twoPow 51)⟩

/-- Sum.  An exact zero is positive unless both operands are negative. -/
def add (x y : Binary64) : Binary64 :=
  if x.isNaN then x.quieted
  else if y.isNaN then y.quieted
  else if x.isInfinite then
    if y.isInfinite && x.isNegative != y.isNegative then invalid else x
  else if y.isInfinite then y
  else
    let sum := x.signedUnits + y.signedUnits
    if sum = 0 then ofParts (x.isNegative && y.isNegative) 0
    else ofRatio (sum < 0) sum.natAbs 1

def mul (x y : Binary64) : Binary64 :=
  let negative := x.isNegative != y.isNegative
  if x.isNaN then x.quieted
  else if y.isNaN then y.quieted
  else if x.isInfinite || y.isInfinite then
    if x.magnitude = 0 || y.magnitude = 0 then invalid else ofParts negative infinityWord
  else ofRatio negative (x.units * y.units) (twoPow 1074)

def div (x y : Binary64) : Binary64 :=
  let negative := x.isNegative != y.isNegative
  if x.isNaN then x.quieted
  else if y.isNaN then y.quieted
  else if x.isInfinite then if y.isInfinite then invalid else ofParts negative infinityWord
  else if y.isInfinite then ofParts negative 0
  else if y.magnitude = 0 then
    if x.magnitude = 0 then invalid else ofParts negative infinityWord
  else ofRatio negative (x.units * twoPow 1074) y.units

/-! ## Integers -/

def clampInt64 (n : Int) : Int64 :=
  if n < -9223372036854775808 then Int64.minValue
  else if 9223372036854775807 < n then Int64.maxValue
  else Int64.ofInt n

/-- The whole part, cut toward zero and clamped to 64 bits; a NaN gives zero. -/
def toInt64 (x : Binary64) : Int64 :=
  if x.isNaN then 0
  else
    let whole : Int := x.units / twoPow 1074
    clampInt64 (if x.isNegative then -whole else whole)

end Binary64

end MatchAlgebra
