import Mathlib.Algebra.BigOperators.Group.List.Basic
import MatchAlgebra.Proofs.Weights

/-!
# Totals in any order

A total has the sum of the numbers as its value, so neither the order of the weights nor a division
into subtotals can be seen in it.  Which of the two kinds of weight it is does depend on the order:
a total turns into a decimal at the first decimal and at the first sum that 64 bits do not hold,
and stays one.

    weights.foldl add w = .long n  ↔  w and all weights are integers, all running sums fit and
                                      n is the last of them                  (foldl_add_eq_long)
    (sum (parts.map sum)).value    =  (sum parts.flatten).value            (value_sum_map_sum)
-/

namespace MatchAlgebra

namespace Weight

/-- The numbers that 64 bits hold. -/
def InRange (n : Int) : Prop := -2 ^ 63 ≤ n ∧ n < 2 ^ 63

theorem fits_iff {n : Int} : fits n = true ↔ InRange n := by
  simp only [fits, InRange, Bool.and_eq_true, decide_eq_true_eq]
  omega

theorem inRange_toInt (n : Int64) : InRange n.toInt := ⟨n.le_toInt, n.toInt_lt⟩

/-! ## Integers as totals -/

/-- One addition gives an integer exactly on two integers whose sum is in range. -/
theorem add_eq_long {v w : Weight} {n : Int64} :
    v.add w = .long n ↔
      ∃ a b, v = .long a ∧ w = .long b ∧ InRange (a.toInt + b.toInt) ∧
        n.toInt = a.toInt + b.toInt := by
  constructor
  · intro added
    cases v with
    | decimal d => cases w <;> cases added
    | long a =>
      cases w with
      | decimal d => cases added
      | long b =>
        rw [add] at added
        by_cases holds : fits (a.toInt + b.toInt) = true
        · rw [if_pos holds] at added
          cases added
          exact ⟨a, b, rfl, rfl, fits_iff.1 holds, toInt_add_of_fits holds⟩
        · rw [if_neg holds] at added
          cases added
  · rintro ⟨a, b, rfl, rfl, inside, total⟩
    have holds := fits_iff.2 inside
    have same : a + b = n := Int64.toInt_inj.1 ((toInt_add_of_fits holds).trans total.symm)
    rw [add, if_pos holds, same]

/-- The integers of a list. -/
def total (ns : List Int64) : Int := (ns.map Int64.toInt).sum

@[simp] theorem total_nil : total [] = 0 := rfl

@[simp] theorem total_cons (n : Int64) (ns : List Int64) : total (n :: ns) = n.toInt + total ns :=
  rfl

/-- The running sums from `m` on are those of the first number and then those from its sum on. -/
theorem inRange_running_cons {m b : Int64} {k : Int} {ns : List Int64}
    (step : k = m.toInt + b.toInt) :
    (∀ part, part <+: b :: ns → InRange (m.toInt + total part)) ↔
      ∀ part, part <+: ns → InRange (k + total part) := by
  constructor
  · intro inside part initial
    have := inside (b :: part) (List.cons_prefix_cons.2 ⟨rfl, initial⟩)
    rwa [total_cons, ← Int.add_assoc, ← step] at this
  · intro inside part initial
    rcases List.prefix_cons_iff.1 initial with rfl | ⟨rest, rfl, within⟩
    · rw [total_nil, Int.add_zero]
      exact inRange_toInt m
    · rw [total_cons, ← Int.add_assoc, ← step]
      exact inside rest within

/-- **A running sum stays an integer** exactly as long as only integers are added and every sum on
the way is in range. -/
theorem foldl_add_eq_long {weights : List Weight} {w : Weight} {n : Int64} :
    weights.foldl add w = .long n ↔
      ∃ m ns, w = .long m ∧ weights = ns.map .long ∧
        (∀ part, part <+: ns → InRange (m.toInt + total part)) ∧
        n.toInt = m.toInt + total ns := by
  induction weights generalizing w with
  | nil =>
    constructor
    · rintro rfl
      refine ⟨n, [], rfl, rfl, fun part initial => ?_, by simp⟩
      rw [List.prefix_nil.1 initial, total_nil, Int.add_zero]
      exact inRange_toInt n
    · rintro ⟨m, ns, rfl, empty, -, last⟩
      rw [List.map_eq_nil_iff.1 empty.symm, total_nil, Int.add_zero] at last
      rw [List.foldl_nil, Int64.toInt_inj.1 last]
  | cons first weights ih =>
    rw [List.foldl_cons, ih]
    constructor
    · rintro ⟨k, ns, added, rfl, inside, last⟩
      obtain ⟨m, b, rfl, rfl, -, step⟩ := add_eq_long.1 added
      refine ⟨m, b :: ns, rfl, rfl, (inRange_running_cons step).2 inside, ?_⟩
      rw [last, step, total_cons, Int.add_assoc]
    · rintro ⟨m, ns, rfl, split, inside, last⟩
      obtain ⟨b, ns, rfl, rfl, rfl⟩ := List.map_eq_cons_iff.1 split.symm
      have first : InRange (m.toInt + b.toInt) := by
        simpa using inside [b] ⟨ns, rfl⟩
      have step := toInt_add_of_fits (fits_iff.2 first)
      refine ⟨m + b, ns, add_eq_long.2 ⟨m, b, rfl, rfl, first, step⟩, rfl,
        (inRange_running_cons step).1 inside, ?_⟩
      rw [last, total_cons, step, Int.add_assoc]

/-! ## Orders and divisions -/

theorem value_sum_map_sum (parts : List (List Weight)) :
    (sum (parts.map sum)).value = (sum parts.flatten).value := by
  rw [value_sum, value_sum, List.map_flatten, List.sum_flatten, List.map_map, List.map_map]
  congr 1
  exact List.map_congr_left fun part _ => value_sum part

theorem value_sum_perm {weights others : List Weight} (same : others.Perm weights) :
    (sum others).value = (sum weights).value := by
  rw [value_sum, value_sum, (same.map value).sum_eq]

/-- All weights are integers, and 64 bits hold each of the sums on the way. -/
def StaysInRange (weights : List Weight) (ns : List Int64) : Prop :=
  weights = ns.map .long ∧ ∀ part, part <+: ns → InRange (total part)

/-- What a total is. -/
structure TotalOf (weights : List Weight) (w : Weight) : Prop where
  /-- its number is the sum of the numbers -/
  exact : w.toDecimal.value = (weights.map fun v => v.toDecimal.value).sum
  /-- in another order the total is an equal decimal -/
  ordered : ∀ others, others.Perm weights → (sum others).toDecimal.beq w.toDecimal = true
  /-- and so is the total of subtotals -/
  divided : ∀ parts : List (List Weight), parts.flatten.Perm weights →
    (sum (parts.map sum)).toDecimal.beq w.toDecimal = true
  /-- it is an integer exactly where all sums on the way are -/
  long_iff : (∃ n, w = .long n) ↔ ∃ ns, StaysInRange weights ns
  /-- and then it is the sum of the integers -/
  unwrapped : ∀ n ns, w = .long n → weights = ns.map .long → n.toInt = total ns

/-- **Totals are exact**: a total has the sum of the numbers for its number, in any order and
however it is cut into subtotals, and it is an integer exactly if all weights are and 64 bits hold
every running sum. -/
theorem totalOf_sum (weights : List Weight) : TotalOf weights (sum weights) where
  exact := value_sum weights
  ordered others same := (Decimal.beq_iff_value_eq _ _).2 (value_sum_perm same)
  divided parts same :=
    (Decimal.beq_iff_value_eq _ _).2 ((value_sum_map_sum parts).trans (value_sum_perm same))
  long_iff := by
    constructor
    · rintro ⟨n, whole⟩
      obtain ⟨m, ns, start, rfl, inside, -⟩ := foldl_add_eq_long.1 whole
      cases start
      refine ⟨ns, rfl, fun part initial => ?_⟩
      simpa using inside part initial
    · rintro ⟨ns, rfl, inside⟩
      have last := inside ns (List.prefix_refl ns)
      refine ⟨Int64.ofInt (total ns), foldl_add_eq_long.2 ⟨0, ns, rfl, rfl, ?_, ?_⟩⟩
      · intro part initial
        simpa using inside part initial
      · rw [Int64.toInt_ofInt_of_le last.1 last.2]
        simp
  unwrapped n ns whole listed := by
    obtain ⟨m, others, start, same, -, last⟩ := foldl_add_eq_long.1 whole
    cases start
    have injective : Function.Injective Weight.long := fun a b same => by cases same; rfl
    rw [List.map_injective_iff.2 injective (listed.symm.trans same)]
    simpa using last

/-- The largest integer, one and minus one: the order decides whether the total is an integer. -/
example :
    sum [.long Int64.maxValue, .long 1, .long (-1)] = .decimal ⟨9223372036854775807, 0⟩ ∧
      sum [.long Int64.maxValue, .long (-1), .long 1] = .long Int64.maxValue :=
  ⟨rfl, rfl⟩

end Weight

end MatchAlgebra
