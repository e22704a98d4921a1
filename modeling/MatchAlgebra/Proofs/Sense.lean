import Mathlib.Data.List.Sort
import Mathlib.Order.Defs.LinearOrder
import MatchAlgebra.Proofs.Order

/-!
# Values up to spelling

Equal values can be written in different ways: `1.0` and `1.00` are one number with two spellings.
The sense of a value is what is left when the spelling is forgotten, so that "equal under `==`"
becomes an equation:

    a.sense = b.sense  ↔  a == b                                    (sense_inj)

Senses are linearly ordered.  A list of senses in ascending order is determined by its members, and
this is how lists that were made in different ways are shown to be the same.
-/

namespace MatchAlgebra

instance Value.setoid : Setoid Value where
  r a b := a == b
  iseqv := ⟨fun _ => BEq.rfl, BEq.symm, BEq.trans⟩

/-- A value without its spelling. -/
def Sense : Type := Quotient Value.setoid

namespace Value

def sense (v : Value) : Sense := Quotient.mk _ v

theorem sense_inj {a b : Value} : a.sense = b.sense ↔ a == b :=
  ⟨fun h => Quotient.exact h, fun h => Quotient.sound h⟩

theorem sense_eq_iff_compare {a b : Value} : a.sense = b.sense ↔ a.compare b = .eq :=
  sense_inj.trans (compare_eq_iff a b).symm

theorem senses_inj {as bs : List Value} : as.map sense = bs.map sense ↔ as == bs := by
  induction as generalizing bs with
  | nil => cases bs <;> simp
  | cons a as ih =>
    cases bs with
    | nil => simp
    | cons b bs =>
      rw [List.map_cons, List.map_cons, List.cons.injEq, sense_inj, ih, List.cons_beq_cons,
        Bool.and_eq_true]

theorem sense_tuple {as bs : List Value} (h : as.map sense = bs.map sense) :
    (tuple as).sense = (tuple bs).sense := by
  rw [senses_inj, ← beqAll_eq] at h
  exact sense_inj.2 h

end Value

namespace Sense

theorem exists_value (s : Sense) : ∃ v : Value, v.sense = s := Quotient.exists_rep s

instance : DecidableEq Sense :=
  fun a b => Quotient.recOnSubsingleton₂ a b fun v w =>
    decidable_of_iff (v == w) Value.sense_inj.symm

instance : LE Sense where
  le := Quotient.lift₂ (fun v w : Value => ((v.compare w).isLE : Prop)) (by
    intro v w v' w' hv hw
    rw [Std.TransCmp.congr_left (Value.sense_eq_iff_compare.1 (Quotient.sound hv)),
      Std.TransCmp.congr_right (Value.sense_eq_iff_compare.1 (Quotient.sound hw))])

theorem le_iff {v w : Value} : v.sense ≤ w.sense ↔ (v.compare w).isLE := Iff.rfl

instance : DecidableLE Sense :=
  fun a b => Quotient.recOnSubsingleton₂ a b fun v w =>
    decidable_of_iff (v.compare w).isLE le_iff.symm

instance : LinearOrder Sense where
  le_refl := by
    rintro ⟨v⟩
    exact Std.ReflCmp.isLE_rfl
  le_trans := by
    rintro ⟨u⟩ ⟨v⟩ ⟨w⟩
    exact Std.TransCmp.isLE_trans
  le_antisymm := by
    rintro ⟨v⟩ ⟨w⟩ hvw hwv
    exact Value.sense_eq_iff_compare.2 (Std.OrientedCmp.isLE_antisymm hvw hwv)
  le_total := by
    rintro ⟨v⟩ ⟨w⟩
    show (v.compare w).isLE ∨ (w.compare v).isLE
    rw [Value.compare_swap w]
    cases v.compare w <;> simp
  toDecidableLE := inferInstance

theorem lt_iff {v w : Value} : v.sense < w.sense ↔ v.compare w = .lt := by
  rw [lt_iff_not_ge, le_iff, Value.compare_swap]
  cases v.compare w <;> simp

/-- What equal values agree on is a matter of their sense. -/
theorem exists_of_congr {β : Type} {f : Value → β} (hf : ∀ a b : Value, a == b → f a = f b) :
    ∃ g : Sense → β, ∀ v, g v.sense = f v :=
  ⟨Quotient.lift f hf, fun _ => rfl⟩

/-- A table in ascending order of its keys is determined by its entries. -/
theorem eq_of_ascending {γ : Type} {l₁ l₂ : List (Sense × γ)}
    (h₁ : l₁.Pairwise fun p q => p.1 < q.1) (h₂ : l₂.Pairwise fun p q => p.1 < q.1)
    (h : ∀ p, p ∈ l₁ ↔ p ∈ l₂) : l₁ = l₂ := by
  have nodup : ∀ {l : List (Sense × γ)}, l.Pairwise (fun p q => p.1 < q.1) → l.Nodup :=
    fun hl => hl.imp fun hlt heq => absurd (heq ▸ hlt) (lt_irrefl _)
  have perm := (List.perm_ext_iff_of_nodup (nodup h₁) (nodup h₂)).2 h
  exact perm.eq_of_pairwise (fun p q _ _ hpq hqp => absurd hpq (lt_asymm hqp)) h₁ h₂

end Sense

/-! ## Lists without repetition, and lists in order -/

/-- Lists have one image if they go in step and their items have. -/
theorem map_eq_map_iff {α β γ : Type} {f : α → γ} {g : β → γ} {as : List α} {bs : List β} :
    as.map f = bs.map g ↔ List.Forall₂ (fun a b => f a = g b) as bs := by
  rw [← List.forall₂_eq_eq_eq, List.forall₂_map_left_iff, List.forall₂_map_right_iff]

/-- What stands on the right of related lists is related to something on the left. -/
theorem exists_related_of_mem {α β : Type} {R : α → β → Prop} {as : List α} {bs : List β}
    (h : List.Forall₂ R as bs) {b : β} (hb : b ∈ bs) : ∃ a ∈ as, R a b := by
  induction h with
  | nil => cases hb
  | cons related _ ih =>
    rcases List.mem_cons.1 hb with rfl | hb
    · exact ⟨_, List.mem_cons_self, related⟩
    · obtain ⟨a, ha, related⟩ := ih hb
      exact ⟨a, List.mem_cons_of_mem _ ha, related⟩

theorem nodup_eraseDups {α : Type} [BEq α] [LawfulBEq α] (l : List α) : l.eraseDups.Nodup := by
  induction h : l.length using Nat.strongRecOn generalizing l with
  | ind n ih =>
    cases l with
    | nil => simp
    | cons a l =>
      subst h
      rw [List.eraseDups_cons, List.nodup_cons, List.mem_eraseDups]
      refine ⟨by simp, ih _ ?_ _ rfl⟩
      exact Nat.lt_succ_of_le (List.length_filter_le ..)

theorem map_eraseDups {α β : Type} [BEq α] [BEq β] {f : α → β}
    (hf : ∀ a b, (f a == f b) = (a == b)) (l : List α) :
    l.eraseDups.map f = (l.map f).eraseDups := by
  induction h : l.length using Nat.strongRecOn generalizing l with
  | ind n ih =>
    cases l with
    | nil => simp
    | cons a l =>
      subst h
      rw [List.map_cons, List.eraseDups_cons, List.eraseDups_cons, List.map_cons,
        ih _ (Nat.lt_succ_of_le (List.length_filter_le ..)) _ rfl, List.filter_map]
      congr 4
      funext b
      simp [hf]

/-- Lists in the same order with the same members start alike. -/
theorem head?_eq_of_mem_iff {α : Type} {r : α → α → Prop} (antisymm : ∀ a b, r a b → r b a → a = b)
    {l₁ l₂ : List α} (h₁ : l₁.Pairwise r) (h₂ : l₂.Pairwise r) (h : ∀ a, a ∈ l₁ ↔ a ∈ l₂) :
    l₁.head? = l₂.head? := by
  cases l₁ with
  | nil =>
    cases l₂ with
    | nil => rfl
    | cons b l₂ => exact absurd ((h b).2 List.mem_cons_self) List.not_mem_nil
  | cons a l₁ =>
    cases l₂ with
    | nil => exact absurd ((h a).1 List.mem_cons_self) List.not_mem_nil
    | cons b l₂ =>
      rw [List.pairwise_cons] at h₁ h₂
      rcases List.mem_cons.1 ((h a).1 List.mem_cons_self) with rfl | ha
      · rfl
      rcases List.mem_cons.1 ((h b).2 List.mem_cons_self) with rfl | hb
      · rfl
      exact congrArg some (antisymm _ _ (h₁.1 b hb) (h₂.1 a ha))

/-- The last member of a list in ascending order is its greatest. -/
theorem getLast?_eq_some_iff_of_ascending {l : List Sense} (h : l.Pairwise (· ≤ ·)) {s : Sense} :
    l.getLast? = some s ↔ s ∈ l ∧ ∀ t ∈ l, t ≤ s := by
  have last_le : ∀ {s}, l.getLast? = some s → ∀ t ∈ l, t ≤ s := by
    intro s hs t ht
    obtain ⟨front, rfl⟩ := List.getLast?_eq_some_iff.1 hs
    rcases List.mem_append.1 ht with ht | ht
    · exact (List.pairwise_append.1 h).2.2 t ht s List.mem_cons_self
    · exact (List.mem_singleton.1 ht).le
  constructor
  · exact fun hs => ⟨List.mem_of_getLast? hs, last_le hs⟩
  · rintro ⟨hs, hle⟩
    obtain ⟨t, ht⟩ := Option.isSome_iff_exists.1 (List.getLast?_isSome.2 (List.ne_nil_of_mem hs))
    rw [ht, le_antisymm (last_le ht s hs) (hle t (List.mem_of_getLast? ht))]

/-- Runs of different elements hold each of them as often as its run is long. -/
theorem count_runs {α : Type} [DecidableEq α] (n : α → Nat) (a : α) {l : List α} (h : l.Nodup) :
    (l.flatMap fun b => List.replicate (n b) b).count a = if a ∈ l then n a else 0 := by
  induction l with
  | nil => rfl
  | cons b l ih =>
    rw [List.nodup_cons] at h
    rw [List.flatMap_cons, List.count_append, List.count_replicate, ih h.2]
    by_cases hab : b = a
    · subst hab
      simp [h.1]
    · simp [hab, Ne.symm hab]

theorem ascending_runs (n : Sense → Nat) {l : List Sense} (h : l.Pairwise (· < ·)) :
    (l.flatMap fun s => List.replicate (n s) s).Pairwise (· ≤ ·) := by
  rw [List.pairwise_flatMap]
  refine ⟨fun s _ => List.pairwise_replicate.2 (Or.inr le_rfl), h.imp fun hst x hx y hy => ?_⟩
  rw [List.eq_of_mem_replicate hx, List.eq_of_mem_replicate hy]
  exact hst.le

namespace Value

theorem sense_beq (a b : Value) : (a.sense == b.sense) = (a == b) := by
  rw [Bool.eq_iff_iff, beq_iff_eq, sense_inj]

theorem senses_distinct (vs : List Value) :
    (distinct vs).map sense = (vs.map sense).eraseDups := map_eraseDups sense_beq vs

theorem senses_sort (vs : List Value) :
    (sort vs).map sense = (vs.map sense).mergeSort (· ≤ ·) := by
  refine List.map_mergeSort fun a _ b _ => ?_
  rw [Bool.eq_iff_iff, decide_eq_true_eq, Sense.le_iff]
  cases a.compare b <;> simp

theorem ascending_senses_sort (vs : List Value) : ((sort vs).map sense).Pairwise (· ≤ ·) := by
  rw [senses_sort]
  exact List.pairwise_mergeSort' (· ≤ ·) _

theorem perm_senses_sort (vs : List Value) : ((sort vs).map sense).Perm (vs.map sense) := by
  rw [senses_sort]
  exact List.mergeSort_perm ..

/-- Any list in ascending order that holds the same senses is the sorted one. -/
theorem senses_sort_eq {vs : List Value} {l : List Sense} (h : l.Pairwise (· ≤ ·))
    (hp : l.Perm (vs.map sense)) : (sort vs).map sense = l :=
  ((perm_senses_sort vs).trans hp.symm).eq_of_pairwise' (ascending_senses_sort vs) h

/-- The different values of a list in strictly ascending order. -/
theorem ascending_senses_sort_distinct (vs : List Value) :
    ((sort (distinct vs)).map sense).Pairwise (· < ·) := by
  have nodup : ((sort (distinct vs)).map sense).Nodup := by
    rw [(perm_senses_sort _).nodup_iff, senses_distinct]
    exact nodup_eraseDups _
  exact (ascending_senses_sort _).imp₂ (fun _ _ hle hne => lt_of_le_of_ne hle hne) nodup

theorem mem_senses_sort_distinct {vs : List Value} {s : Sense} :
    s ∈ (sort (distinct vs)).map sense ↔ s ∈ vs.map sense := by
  rw [(perm_senses_sort _).mem_iff, senses_distinct, List.mem_eraseDups]

end Value

end MatchAlgebra
