import MatchAlgebra.Number.Digits

/-!
# Decimals

A decimal is a whole number of digits with a scale and stands for `digits * 10^-scale`.  Equality
and order go by that number, so `1.0` and `1.00` are equal; the scale is kept all the same and
shows in the text and in sums.

    read? "12.50"  =  some ⟨1250, 2⟩          (read?)
    text ⟨1250, 2⟩ =  "12.50"                 (text)
-/

namespace MatchAlgebra

structure Decimal where
  digits : Int
  scale : Int
  deriving DecidableEq

namespace Decimal

def ofInt (n : Int) : Decimal := ⟨n, 0⟩

def zero : Decimal := ofInt 0

/-! ## Arithmetic and order -/

/-- The digits of the same number at a scale that is not smaller.  Zero has none to move, whatever
the distance. -/
def digitsAt (d : Decimal) (scale : Int) : Int :=
  if d.digits = 0 then 0 else d.digits * (tenPow (scale - d.scale).toNat : Nat)

theorem digitsAt_eq (d : Decimal) (scale : Int) :
    d.digitsAt scale = d.digits * (tenPow (scale - d.scale).toNat : Nat) := by
  unfold digitsAt
  split
  · next h => simp [h]
  · rfl

/-- The larger of two scales, at which both numbers have whole digits. -/
def commonScale (a b : Decimal) : Int := if a.scale ≤ b.scale then b.scale else a.scale

/-- Exact sum, at the larger of the two scales. -/
def add (a b : Decimal) : Decimal :=
  let scale := commonScale a b
  ⟨a.digitsAt scale + b.digitsAt scale, scale⟩

/-- Compares `m` with `n * 10^k`.  With fewer than `k` binary digits `m` is the smaller in size, so
that the sign of `n` decides and the power is not written out. -/
def compareShifted (m n : Int) (k : Nat) : Ordering :=
  if n = 0 then Ord.compare m 0
  else if m.natAbs.log2 < k then Ord.compare 0 n
  else Ord.compare m (n * (tenPow k : Nat))

/-- Order of the numbers, whatever their scales. -/
def compare (a b : Decimal) : Ordering :=
  if a.scale ≤ b.scale then (compareShifted b.digits a.digits (b.scale - a.scale).toNat).swap
  else compareShifted a.digits b.digits (a.scale - b.scale).toNat

/-- Equality of the numbers, whatever their scales. -/
def beq (a b : Decimal) : Bool := a.compare b = .eq

theorem natAbs_lt_tenPow {m : Int} {k : Nat} (h : m.natAbs.log2 < k) : m.natAbs < tenPow k :=
  Nat.lt_of_lt_of_le Nat.lt_log2_self
    (Nat.le_trans (Nat.pow_le_pow_right (by decide) h) (Nat.pow_le_pow_left (by decide) k))

theorem compareShifted_eq (m n : Int) (k : Nat) :
    compareShifted m n k = Ord.compare m (n * (tenPow k : Nat)) := by
  unfold compareShifted
  split
  · next hn => simp [hn]
  · split
    · next hn hk =>
      have hm := natAbs_lt_tenPow hk
      have hp := tenPow_pos k
      rcases Int.lt_or_gt_of_ne hn with neg | pos
      · have : n * (tenPow k : Nat) ≤ -1 * (tenPow k : Nat) :=
          Int.mul_le_mul_of_nonneg_right (by omega) (by omega)
        rw [Int.compare_eq_gt.2 neg, Int.compare_eq_gt.2 (by omega)]
      · have : 1 * (tenPow k : Nat) ≤ n * (tenPow k : Nat) :=
          Int.mul_le_mul_of_nonneg_right (by omega) (by omega)
        rw [Int.compare_eq_lt.2 pos, Int.compare_eq_lt.2 (by omega)]
    · rfl

/-- The order is that of the digits at a common scale. -/
theorem compare_eq (a b : Decimal) :
    a.compare b = Ord.compare (a.digitsAt (commonScale a b)) (b.digitsAt (commonScale a b)) := by
  unfold compare commonScale
  split <;> simp [digitsAt_eq, compareShifted_eq, tenPow, Int.compare_swap]

/-! ## Text -/

/-- Small numbers are written in scientific notation and large round ones with a trailing
exponent: where the number would start with more than five zeros after the point, or end with
more than fifteen zeros before it. -/
def text (d : Decimal) : String :=
  let digits := Digits.ofNat d.digits.natAbs
  let scale := if d.digits = 0 then 0 else d.scale
  let body :=
    if 5 < scale - digits.length then
      let fraction := digits.drop 1
      digits.take 1 ++ (if fraction.isEmpty then [] else '.' :: fraction)
        ++ "E-".toList ++ Digits.ofNat (scale + 1 - digits.length).toNat
    else if 15 < -scale then digits ++ "e+".toList ++ Digits.ofNat (-scale).toNat
    else Digits.scaled d.digits.natAbs (-scale)
  String.ofList (Digits.sign (d.digits < 0) ++ body)

/-- Digits, and underscores between them. -/
def isDigitOrGap (c : Char) : Bool := c.isDigit || c = '_'

/-- The exponent after an `e` or `E`; none means zero. -/
def readExponent? : List Char → Option Int
  | [] => some 0
  | c :: rest => if c = 'e' || c = 'E' then Digits.readInt? rest else none

/-- Reads `[+-]digits[.digits][e[+-]digits]`, where either run of digits may be missing but not
both. -/
def read? (text : String) : Option Decimal :=
  let (negative, rest) := Digits.splitSign text.toList
  let whole := rest.takeWhile isDigitOrGap
  let rest := rest.dropWhile isDigitOrGap
  let (fraction, rest) := match rest with
    | '.' :: tail => (tail.takeWhile isDigitOrGap, tail.dropWhile isDigitOrGap)
    | _ => ([], rest)
  let places := (fraction.filter Char.isDigit).length
  if !(whole ++ fraction).any Char.isDigit then none
  else
    let n : Int := Digits.toNat (whole ++ fraction)
    (readExponent? rest).map fun exponent => ⟨if negative then -n else n, places - exponent⟩

end Decimal

end MatchAlgebra
