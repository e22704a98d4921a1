import Mathlib.Algebra.Order.Field.Rat
import Mathlib.Algebra.Order.Ring.Cast
import MatchAlgebra.Joining.Comparison
import MatchAlgebra.Proofs.Weights

/-!
# Equality, order and comparisons of values go together

Equality and order of values are two functions, and the comparisons of joiners use both.  Since they
agree, a comparison sees no more of two values than how they are ordered:

    comparison.holds a b = comparison.accepts (a.compare b)                (Comparison.holds_eq)

So what is to be shown of comparisons is shown for each of the three orderings.  Decimals are where
equality could differ from order most easily, since a number has many spellings; both go by the
number that a decimal stands for (`Decimal.compare_eq_lt_iff`).
-/

namespace MatchAlgebra

/-- The order of decimals is that of their values. -/
theorem Decimal.compare_eq_lt_iff (a b : Decimal) : a.compare b = .lt ↔ a.value < b.value := by
  rw [compare_eq, Int.compare_eq_lt, a.value_eq_at (le_commonScale_left a b),
    b.value_eq_at (le_commonScale_right a b)]
  have positive : 0 < (10 : Rat) ^ (-commonScale a b) := zpow_pos (by norm_num) _
  rw [mul_lt_mul_iff_left₀ positive, Int.cast_lt]

/-! ## Comparisons by the order alone -/

namespace Comparison

/-- Whether the comparison holds of values that are ordered so. -/
def accepts : Comparison → Ordering → Bool
  | .equal, order => order == .eq
  | .notEqual, order => order != .eq
  | .lessThan, order => order == .lt
  | .lessThanOrEqual, order => order != .gt
  | .greaterThan, order => order == .gt
  | .greaterThanOrEqual, order => order != .lt

theorem holds_eq (comparison : Comparison) (a b : Value) :
    comparison.holds a b = comparison.accepts (a.compare b) := by
  have equal : (a == b) = (a.compare b == .eq) := by
    rw [Bool.eq_iff_iff, ← Value.compare_eq_iff, beq_iff_eq]
  cases comparison with
  | equal => exact equal
  | notEqual => exact congrArg not equal
  | lessThan => rfl
  | lessThanOrEqual => rfl
  | greaterThan => rfl
  | greaterThanOrEqual => rfl

@[simp] theorem flip_flip (comparison : Comparison) : comparison.flip.flip = comparison := by
  cases comparison <;> rfl

theorem accepts_flip (comparison : Comparison) (order : Ordering) :
    comparison.flip.accepts order.swap = comparison.accepts order := by
  cases comparison <;> cases order <;> rfl

/-- The comparison with its sides swapped holds of the values swapped. -/
theorem holds_flip (comparison : Comparison) (a b : Value) :
    comparison.flip.holds b a = comparison.holds a b := by
  rw [holds_eq, holds_eq, Value.compare_swap b a, accepts_flip]

/-- Three comparisons tell the orderings apart. -/
theorem existsUnique_accepts (order : Ordering) :
    ∃! comparison : Comparison,
      comparison ∈ [equal, lessThan, greaterThan] ∧ comparison.accepts order = true := by
  cases order with
  | lt => exact ⟨.lessThan, by decide, by rintro ⟨⟩ <;> decide⟩
  | eq => exact ⟨.equal, by decide, by rintro ⟨⟩ <;> decide⟩
  | gt => exact ⟨.greaterThan, by decide, by rintro ⟨⟩ <;> decide⟩

theorem existsUnique_holds (a b : Value) :
    ∃! comparison : Comparison,
      comparison ∈ [equal, lessThan, greaterThan] ∧ comparison.holds a b = true := by
  simp only [holds_eq]
  exact existsUnique_accepts (a.compare b)

end Comparison

/-! ## The laws -/

namespace Value

/-- What holds between any three values. -/
structure Coherent (a b c : Value) : Prop where
  refl : (a == a) = true
  symm : (a == b) = true → (b == a) = true
  trans : (a == b) = true → (b == c) = true → (a == c) = true
  swap : b.compare a = (a.compare b).swap
  le_trans : a.compare b ≠ .gt → b.compare c ≠ .gt → a.compare c ≠ .gt
  lt_trans : a.compare b = .lt → b.compare c = .lt → a.compare c = .lt
  eq_iff : a.compare b = .eq ↔ (a == b) = true
  decimals : ∀ x y, a = .decimal x → b = .decimal y →
    ((a == b) = true ↔ x.value = y.value) ∧ (a.compare b = .lt ↔ x.value < y.value)
  exclusive : ∃! comparison : Comparison,
    comparison ∈ [.equal, .lessThan, .greaterThan] ∧ comparison.holds a b = true
  notEqual : Comparison.notEqual.holds a b = !Comparison.equal.holds a b
  greaterThanOrEqual : Comparison.greaterThanOrEqual.holds a b = !Comparison.lessThan.holds a b
  lessThanOrEqual : Comparison.lessThanOrEqual.holds a b = !Comparison.greaterThan.holds a b
  flip : ∀ comparison : Comparison, comparison.holds a b = comparison.flip.holds b a

/-- **Equality, order and comparisons are coherent.**  Equality is an equivalence, the order is
total and takes just the equal values for equal, and the comparisons go by both. -/
theorem coherent (a b c : Value) : Coherent a b c where
  refl := BEq.rfl
  symm := BEq.symm
  trans := BEq.trans
  swap := compare_swap b a
  le_trans := by
    simp only [← Ordering.isLE_iff_ne_gt]
    exact compare_isLE_trans a b c
  lt_trans := Std.TransCmp.lt_trans
  eq_iff := compare_eq_iff a b
  decimals := by
    rintro x y rfl rfl
    exact ⟨x.beq_iff_value_eq y, x.compare_eq_lt_iff y⟩
  exclusive := Comparison.existsUnique_holds a b
  notEqual := rfl
  greaterThanOrEqual := rfl
  lessThanOrEqual := rfl
  flip comparison := (comparison.holds_flip a b).symm

end Value

end MatchAlgebra
