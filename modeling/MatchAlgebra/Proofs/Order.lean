import MatchAlgebra.Value

/-!
# The order of values

`compare` is a total order on values, and `==` is the equality that goes with it:

    a.compare b = .eq  ↔  a == b                                    (compare_eq_iff)
    a ≤ b  →  b ≤ c  →  a ≤ c                                       (compare_isLE_trans)

Values of one kind are ordered by what they hold, and each kind has its own argument: the words of
floating-point numbers are ordered by a key that no two of them share, decimals by their digits at
any scale that all of them reach.  Tuples are handled by induction, together with their lists of
components.
-/

namespace MatchAlgebra

/-! ## Floating-point numbers -/

namespace Binary64

theorem orderKey_inj {x y : Binary64} (h : x.orderKey = y.orderKey) : x = y := by
  have hx := x.bits.toNat_lt
  have hy := y.bits.toNat_lt
  have key : x.bits.toNat = y.bits.toNat := by
    unfold orderKey isNegative magnitude twoPow at h
    simp only [decide_eq_true_eq] at h
    split at h <;> split at h <;> simp only [Nat.pow_eq] at * <;> omega
  cases x
  cases y
  simpa using UInt64.toNat_inj.1 key

instance : Std.TransCmp Binary64.compare :=
  inferInstanceAs (Std.TransCmp (compareOn Binary64.orderKey))

theorem compare_eq_iff {x y : Binary64} : x.compare y = .eq ↔ x = y := by
  unfold compare
  rw [Std.LawfulEqOrd.compare_eq_iff_eq]
  exact ⟨orderKey_inj, fun h => h ▸ rfl⟩

end Binary64

/-! ## Decimals -/

namespace Decimal

theorem digitsAt_rescale (d : Decimal) {s t : Int} (hs : d.scale ≤ s) (ht : s ≤ t) :
    d.digitsAt t = d.digitsAt s * (tenPow (t - s).toNat : Nat) := by
  have h : (t - d.scale).toNat = (s - d.scale).toNat + (t - s).toNat := by omega
  rw [digitsAt_eq, digitsAt_eq, h, tenPow_add, Int.natCast_mul, Int.mul_assoc]

theorem compare_mul_pos (m n : Int) {k : Nat} (hk : 0 < k) :
    Ord.compare (m * k) (n * k) = Ord.compare m n := by
  have hk' : (0 : Int) < k := by omega
  rcases Int.lt_trichotomy m n with h | rfl | h
  · rw [Int.compare_eq_lt.2 h, Int.compare_eq_lt.2 (Int.mul_lt_mul_of_pos_right h hk')]
  · simp
  · rw [Int.compare_eq_gt.2 h, Int.compare_eq_gt.2 (Int.mul_lt_mul_of_pos_right h hk')]

theorem le_commonScale_left (a b : Decimal) : a.scale ≤ commonScale a b := by
  unfold commonScale
  split <;> omega

theorem le_commonScale_right (a b : Decimal) : b.scale ≤ commonScale a b := by
  unfold commonScale
  split <;> omega

/-- Any scale that both numbers reach serves to compare them. -/
theorem compare_eq_at (a b : Decimal) {s : Int} (ha : a.scale ≤ s) (hb : b.scale ≤ s) :
    a.compare b = Ord.compare (a.digitsAt s) (b.digitsAt s) := by
  have hc : commonScale a b ≤ s := by unfold commonScale; split <;> assumption
  rw [compare_eq, digitsAt_rescale a (le_commonScale_left a b) hc,
    digitsAt_rescale b (le_commonScale_right a b) hc, compare_mul_pos _ _ (tenPow_pos _)]

instance : Std.TransCmp Decimal.compare where
  eq_swap {a b} := by
    rw [compare_eq_at a b (Int.le_max_left ..) (Int.le_max_right ..),
      compare_eq_at b a (Int.le_max_right ..) (Int.le_max_left ..)]
    exact Std.OrientedOrd.eq_swap
  isLE_trans {a b c} hab hbc := by
    obtain ⟨s, ha, hb, hc⟩ : ∃ s, a.scale ≤ s ∧ b.scale ≤ s ∧ c.scale ≤ s :=
      ⟨max a.scale (max b.scale c.scale), by omega, by omega, by omega⟩
    rw [compare_eq_at a b ha hb] at hab
    rw [compare_eq_at b c hb hc] at hbc
    rw [compare_eq_at a c ha hc]
    exact Std.TransOrd.isLE_trans hab hbc

end Decimal

/-! ## Values -/

namespace Value

theorem compare_of_rank_ne {a b : Value} (h : a.rank ≠ b.rank) :
    a.compare b = Ord.compare a.rank b.rank := by
  cases a <;> cases b <;> simp_all [compare, rank]

theorem compareAll_eq : ∀ as bs : List Value, compareAll as bs = List.compareLex compare as bs
  | [], [] => by rw [compareAll, List.compareLex]
  | [], _ :: _ => by rw [compareAll, List.compareLex_nil_cons]
  | _ :: _, [] => by rw [compareAll, List.compareLex_cons_nil]
  | a :: as, b :: bs => by rw [compareAll, List.compareLex_cons_cons, compareAll_eq as bs]

theorem beqAll_eq : ∀ as bs : List Value, beqAll as bs = (as == bs)
  | [], [] => by simp [beqAll]
  | [], _ :: _ => by simp [beqAll]
  | _ :: _, [] => by simp [beqAll]
  | a :: as, b :: bs => by rw [beqAll, List.cons_beq_cons, beqAll_eq as bs]; rfl

theorem compareStrings_eq (a b : String) :
    compareStrings a b = List.compareLex (compareOn Char.toNat) a.toList b.toList := rfl

instance : Std.LawfulEqCmp (compareOn Char.toNat) where
  eq_of_compare h := Char.toNat_inj.1 (Std.LawfulEqOrd.eq_of_compare h)

instance : Std.TransCmp compareStrings where
  eq_swap := by
    intro a b
    rw [compareStrings_eq, compareStrings_eq]
    exact Std.OrientedCmp.eq_swap
  isLE_trans := by
    intro a b c hab hbc
    rw [compareStrings_eq] at *
    exact Std.TransCmp.isLE_trans hab hbc

theorem compareStrings_eq_eq {a b : String} : compareStrings a b = .eq ↔ a = b := by
  rw [compareStrings_eq, Std.LawfulEqCmp.compare_eq_iff_eq]
  exact String.toList_inj

theorem compare_of_rank_lt {a b : Value} (h : a.rank < b.rank) : a.compare b = .lt := by
  rw [compare_of_rank_ne (Nat.ne_of_lt h)]
  exact Nat.compare_eq_lt.2 h

theorem rank_le_of_isLE {a b : Value} (h : (a.compare b).isLE) : a.rank ≤ b.rank := by
  rcases Nat.lt_trichotomy a.rank b.rank with lt | eq | gt
  · exact Nat.le_of_lt lt
  · exact Nat.le_of_eq eq
  · rw [compare_of_rank_ne (Nat.ne_of_gt gt), Nat.compare_eq_gt.2 gt] at h
    cases h

mutual

theorem compare_swap (a b : Value) : a.compare b = (b.compare a).swap := by
  by_cases h : a.rank = b.rank
  · match a, b, h with
    | .null, .null, _ => rfl
    | .bool _, .bool _, _ => simp only [compare]; exact Std.OrientedOrd.eq_swap
    | .int _, .int _, _ => simp only [compare]; exact Std.OrientedOrd.eq_swap
    | .float _, .float _, _ => simp only [compare]; exact Std.OrientedCmp.eq_swap
    | .decimal _, .decimal _, _ => simp only [compare]; exact Std.OrientedCmp.eq_swap
    | .string _, .string _, _ => simp only [compare]; exact Std.OrientedCmp.eq_swap
    | .tuple as, .tuple bs, _ => simp only [compare]; exact compareAll_swap as bs
  · rw [compare_of_rank_ne h, compare_of_rank_ne (Ne.symm h)]
    exact Std.OrientedOrd.eq_swap

theorem compareAll_swap : ∀ as bs : List Value, compareAll as bs = (compareAll bs as).swap
  | [], [] => rfl
  | [], _ :: _ => rfl
  | _ :: _, [] => rfl
  | a :: as, b :: bs => by
    rw [compareAll, compareAll, compare_swap a b, compareAll_swap as bs, Ordering.swap_then]

end

mutual

theorem compare_eq_iff (a b : Value) : a.compare b = .eq ↔ a == b := by
  show _ ↔ beq a b = true
  by_cases h : a.rank = b.rank
  · match a, b, h with
    | .null, .null, _ => simp [compare, beq]
    | .bool _, .bool _, _ => simp [compare, beq]
    | .int a, .int b, _ => simp [compare, beq, Int64.toInt_inj]
    | .float _, .float _, _ => simp [compare, beq, Binary64.compare_eq_iff]
    | .decimal _, .decimal _, _ => simp [compare, beq, Decimal.beq]
    | .string _, .string _, _ => simp [compare, beq, compareStrings_eq_eq]
    | .tuple as, .tuple bs, _ => simpa [compare, beq] using compareAll_eq_iff as bs
  · rw [compare_of_rank_ne h]
    cases a <;> cases b <;> simp_all [beq, rank]

theorem compareAll_eq_iff : ∀ as bs : List Value, compareAll as bs = .eq ↔ beqAll as bs
  | [], [] => by simp [compareAll, beqAll]
  | [], _ :: _ => by simp [compareAll, beqAll]
  | _ :: _, [] => by simp [compareAll, beqAll]
  | a :: as, b :: bs => by
    rw [compareAll, beqAll, Ordering.then_eq_eq, compare_eq_iff a b, compareAll_eq_iff as bs,
      Bool.and_eq_true]
    rfl

end

theorem rank_eq_of_isLE {a b c : Value} (hab : (a.compare b).isLE) (hbc : (b.compare c).isLE)
    (h : ¬ a.rank < c.rank) : a.rank = b.rank ∧ b.rank = c.rank := by
  have h₁ := rank_le_of_isLE hab
  have h₂ := rank_le_of_isLE hbc
  omega

mutual

theorem compare_isLE_trans (a b c : Value) (hab : (a.compare b).isLE) (hbc : (b.compare c).isLE) :
    (a.compare c).isLE := by
  by_cases h : a.rank < c.rank
  · rw [compare_of_rank_lt h]
    rfl
  · obtain ⟨h₁, h₂⟩ := rank_eq_of_isLE hab hbc h
    match a, b, c, h₁, h₂ with
    | .null, .null, .null, _, _ => rfl
    | .bool _, .bool _, .bool _, _, _ =>
      simp only [compare] at *; exact Std.TransOrd.isLE_trans hab hbc
    | .int _, .int _, .int _, _, _ =>
      simp only [compare] at *; exact Std.TransOrd.isLE_trans hab hbc
    | .float _, .float _, .float _, _, _ =>
      simp only [compare] at *; exact Std.TransCmp.isLE_trans hab hbc
    | .decimal _, .decimal _, .decimal _, _, _ =>
      simp only [compare] at *; exact Std.TransCmp.isLE_trans hab hbc
    | .string _, .string _, .string _, _, _ =>
      simp only [compare] at *; exact Std.TransCmp.isLE_trans hab hbc
    | .tuple as, .tuple bs, .tuple cs, _, _ =>
      simp only [compare] at *; exact compareAll_isLE_trans as bs cs hab hbc
termination_by sizeOf a + sizeOf b + sizeOf c

theorem compareAll_isLE_trans (as bs cs : List Value) (hab : (compareAll as bs).isLE)
    (hbc : (compareAll bs cs).isLE) : (compareAll as cs).isLE := by
  match as, bs, cs with
  | [], _, [] => rfl
  | [], _, _ :: _ => rfl
  | _ :: _, [], _ => cases hab
  | _ :: _, _ :: _, [] => cases hbc
  | a :: as, b :: bs, c :: cs =>
    simp only [compareAll, Ordering.isLE_then_iff_and] at *
    obtain ⟨hab, hab'⟩ := hab
    obtain ⟨hbc, hbc'⟩ := hbc
    refine ⟨compare_isLE_trans a b c hab hbc, ?_⟩
    cases hca : (c.compare a).isLE with
    | false =>
      left
      rw [compare_swap]
      cases h : c.compare a <;> simp_all
    | true =>
      -- all three heads are equal, so that the tails decide
      have hba := compare_isLE_trans b c a hbc hca
      have hcb := compare_isLE_trans c a b hca hab
      rw [compare_swap] at hba hcb
      right
      refine compareAll_isLE_trans as bs cs ?_ ?_
      · exact hab'.resolve_left fun h => by rw [h] at hba; cases hba
      · exact hbc'.resolve_left fun h => by rw [h] at hcb; cases hcb
termination_by sizeOf as + sizeOf bs + sizeOf cs

end

instance : Std.TransCmp Value.compare where
  eq_swap := compare_swap _ _
  isLE_trans := compare_isLE_trans _ _ _

instance : Std.LawfulBEqCmp Value.compare where
  compare_eq_iff_beq := compare_eq_iff _ _

instance : EquivBEq Value := @Std.LawfulBEqCmp.equivBEq _ _ Value.compare _ _

end Value
end MatchAlgebra
