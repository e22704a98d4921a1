import Mathlib.Data.Int.CharZero
import Mathlib.Algebra.Field.Rat
import Mathlib.Tactic.NormNum.Basic
import MatchAlgebra.Weight
import MatchAlgebra.Proofs.Order

/-!
# Sums of weights are exact

The value of a decimal is the rational number `digits * 10^-scale` that it stands for.  Decimals are
equal when their values are, and sums of decimals have the sums of the values:

    (a.add b).value = a.value + b.value                                     (Decimal.value_add)

A weight turns from an integer into a decimal where 64 bits do not hold the sum, so this carries
over to weights, whichever of them are decimals and wherever a sum overflows:

    (sum weights).value = (weights.map value).sum                             (Weight.value_sum)
-/

namespace MatchAlgebra

/-! ## Decimals -/

namespace Decimal

/-- The number that the decimal stands for. -/
def value (d : Decimal) : Rat := d.digits * (10 : Rat) ^ (-d.scale)

/-- Digits at a larger scale stand for the same number. -/
theorem value_eq_at (d : Decimal) {scale : Int} (h : d.scale ≤ scale) :
    d.value = d.digitsAt scale * (10 : Rat) ^ (-scale) := by
  obtain ⟨k, rfl⟩ := Int.le.dest h
  have shift : (d.scale + k - d.scale).toNat = k := by omega
  have power : ((tenPow k : Nat) : Rat) = (10 : Rat) ^ (k : Int) := by
    rw [zpow_natCast]
    exact Nat.cast_pow 10 k
  have split : (10 : Rat) ^ (-d.scale) = (10 : Rat) ^ (k : Int) * 10 ^ (-(d.scale + k)) := by
    rw [← zpow_add₀ (by norm_num)]
    congr 1
    omega
  rw [digitsAt_eq, shift, value, split, Int.cast_mul, Int.cast_natCast, power, mul_assoc]

theorem value_add (a b : Decimal) : (a.add b).value = a.value + b.value := by
  rw [a.value_eq_at (le_commonScale_left a b), b.value_eq_at (le_commonScale_right a b),
    ← add_mul, ← Int.cast_add]
  rfl

theorem value_ofInt (n : Int) : (ofInt n).value = n := by
  simp [value, ofInt]

/-- Equality of decimals is that of their values. -/
theorem beq_iff_value_eq (a b : Decimal) : a.beq b = true ↔ a.value = b.value := by
  rw [beq, decide_eq_true_iff, compare_eq, Int.compare_eq_eq,
    a.value_eq_at (le_commonScale_left a b), b.value_eq_at (le_commonScale_right a b)]
  have positive : (10 : Rat) ^ (-commonScale a b) ≠ 0 := zpow_ne_zero _ (by norm_num)
  rw [mul_left_inj' positive, Int.cast_inj]

end Decimal

/-! ## Weights -/

namespace Weight

def value (w : Weight) : Rat := w.toDecimal.value

theorem value_long (n : Int64) : (long n).value = n.toInt := Decimal.value_ofInt n.toInt

/-- Integers that fit are added without wrapping around. -/
theorem toInt_add_of_fits {a b : Int64} (h : fits (a.toInt + b.toInt) = true) :
    (a + b).toInt = a.toInt + b.toInt := by
  unfold fits at h
  simp only [Bool.and_eq_true, decide_eq_true_eq] at h
  rw [Int64.toInt_add]
  exact Int.bmod_eq_of_le (by omega) (by omega)

theorem value_add (a b : Weight) : (a.add b).value = a.value + b.value := by
  cases a with
  | decimal a => exact Decimal.value_add a b.toDecimal
  | long m =>
    cases b with
    | decimal b => exact Decimal.value_add (Decimal.ofInt m.toInt) b
    | long n =>
      rw [add]
      by_cases holds : fits (m.toInt + n.toInt) = true
      · rw [if_pos holds, value_long, value_long, value_long, toInt_add_of_fits holds,
          Int.cast_add]
      · rw [if_neg holds]
        exact Decimal.value_add (Decimal.ofInt m.toInt) (Decimal.ofInt n.toInt)

theorem value_foldl_add (weights : List Weight) (w : Weight) :
    (weights.foldl add w).value = w.value + (weights.map value).sum := by
  induction weights generalizing w with
  | nil => simp
  | cons first weights ih =>
    rw [List.foldl_cons, ih, value_add, List.map_cons, List.sum_cons, add_assoc]

/-- **Sums of weights are exact**, wherever they turn into decimals. -/
theorem value_sum (weights : List Weight) : (sum weights).value = (weights.map value).sum := by
  have zero : zero.value = 0 := by
    rw [Weight.zero, value_long]
    rfl
  rw [sum, value_foldl_add, zero, zero_add]

end Weight

end MatchAlgebra
