import MatchAlgebra.Algebra.Join
import MatchAlgebra.Algebra.Grouping
import MatchAlgebra.Proofs.Congruence

/-!
# The algebra read directly

A term is an expression as it is written, without variables, conditions or logs.  Its rows over
facts are lists of values, and each operation says by itself what it does to them:

    (filter t p).rows facts = (t.rows facts).filter p
    (join l r js).rows facts = pairs (x, y), left-major, on which every joiner holds

A grouping has one row for each distinct vector of keys, in ascending order: the keys, then the
values of the collectors over the rows with these keys.
-/

namespace MatchAlgebra

inductive Term where
  | forEach (type : FactType)
  | filter (t : Term) (predicate : TuplePredicate)
  | join (left right : Term) (joiners : List Joiner)
  | existence (t : Term) (quantifier : Quantifier) (type : FactType) (joiners : List Joiner)
  | map (t : Term) (function : TupleFunction)
  | groupBy (t : Term) (request : GroupRequest)

namespace GroupRequest

/-- The values of the collectors over the rows with the given keys. -/
def measure (request : GroupRequest) (rows : List (List Value)) (vector : Value) : List Value :=
  request.collectors.map fun c => c.over (rows.filter fun x => keyTuple request.keys x == vector)

/-- The keys of each group and the values of the collectors over its rows. -/
def groups (request : GroupRequest) (rows : List (List Value)) : List (List Value) :=
  (Value.sort (Value.distinct (rows.map (keyTuple request.keys)))).map fun vector =>
    vector.components ++ request.measure rows vector

end GroupRequest

namespace Term

def rows (facts : List Fact) : Term → List (List Value)
  | .forEach type => (factsOf facts type).map fun fact => [fact.value]
  | .filter t predicate => (t.rows facts).filter predicate
  | .join left right joiners => (left.rows facts).flatMap fun x =>
    ((right.rows facts).filter fun y => joiners.all (·.holds x (valueAt 0 y))).map (x ++ ·)
  | .existence t quantifier type joiners => (t.rows facts).filter fun x =>
    quantifier.holds ((factsOf facts type).any fun fact => joiners.all (·.holds x fact.value))
  | .map t function => (t.rows facts).map fun x => [function x]
  | .groupBy t request => request.groups (t.rows facts)

/-- All functions of the term respect equality. -/
def Respects : Term → Prop
  | .forEach _ => True
  | .filter t predicate => t.Respects ∧ TuplePredicate.Respects predicate
  | .join left right joiners =>
    left.Respects ∧ right.Respects ∧ ∀ joiner ∈ joiners, joiner.Respects
  | .existence t _ _ joiners => t.Respects ∧ ∀ joiner ∈ joiners, joiner.Respects
  | .map t function => t.Respects ∧ TupleFunction.Respects function
  | .groupBy t request =>
    t.Respects ∧ (∀ key ∈ request.keys, TupleFunction.Respects key) ∧
      ∀ c ∈ request.collectors, c.Respects

end Term

/-! ## Merged joiners -/

namespace JoinRule

theorem holds_addComparison (rule : JoinRule) (c : KeyComparison) (tuple : List Value)
    (candidate : Value) :
    (rule.addComparison c).holds tuple candidate =
      (rule.holds tuple candidate && c.holds tuple candidate) := by
  obtain ⟨indexed, filter⟩ := rule
  cases indexed with
  | none => simp [addComparison, comparisons, holds, KeyComparisons.holds, Bool.and_comm]
  | some cs =>
    simp only [addComparison, comparisons, holds, Option.getD_some, Option.all_some,
      KeyComparisons.holds, List.all_append, List.all_cons, List.all_nil, Bool.and_true]
    rw [Bool.and_right_comm]

theorem holds_addPredicate (rule : JoinRule) (p : JoinPredicate) (tuple : List Value)
    (candidate : Value) :
    (rule.addPredicate p).holds tuple candidate =
      (rule.holds tuple candidate && p tuple candidate) := by
  obtain ⟨indexed, filter⟩ := rule
  cases filter with
  | none => simp [addPredicate, predicates, holds, JoinPredicates.holds]
  | some ps =>
    simp [addPredicate, predicates, holds, JoinPredicates.holds, Bool.and_assoc]

end JoinRule

namespace Joiner

theorem mergeFrom_holds {all : List Joiner} {position : Nat} {joiners : List Joiner}
    {rule merged : JoinRule} (h : mergeFrom all position joiners rule = .ok merged)
    (tuple : List Value) (candidate : Value) :
    merged.holds tuple candidate =
      (rule.holds tuple candidate && joiners.all (·.holds tuple candidate)) := by
  induction joiners generalizing position rule with
  | nil =>
    cases h
    rw [List.all_nil, Bool.and_true]
  | cons joiner joiners ih =>
    rw [List.all_cons, ← Bool.and_assoc]
    cases joiner with
    | comparing comparison keys =>
      rw [mergeFrom] at h
      split at h
      · cases h
      · rw [ih h, JoinRule.holds_addComparison]
        rfl
    | matchAll =>
      rw [mergeFrom] at h
      split at h
      · cases h
      · rw [ih h]
        obtain ⟨indexed, filter⟩ := rule
        cases indexed <;> simp [JoinRule.holds, JoinRule.comparisons, KeyComparisons.holds, holds]
    | filtering p =>
      rw [mergeFrom] at h
      rw [ih h, JoinRule.holds_addPredicate]
      rfl

/-- A merged list of joiners is their conjunction. -/
theorem merge_holds {joiners : List Joiner} {rule : JoinRule} (h : merge joiners = .ok rule)
    (tuple : List Value) (candidate : Value) :
    rule.holds tuple candidate = joiners.all (·.holds tuple candidate) := by
  rw [mergeFrom_holds h]
  rfl

theorem mergeFrom_respects {all : List Joiner} {position : Nat} {joiners : List Joiner}
    {rule merged : JoinRule} (h : mergeFrom all position joiners rule = .ok merged)
    (hr : rule.Respects) (hj : ∀ joiner ∈ joiners, joiner.Respects) : merged.Respects := by
  induction joiners generalizing position rule with
  | nil =>
    cases h
    exact hr
  | cons joiner joiners ih =>
    obtain ⟨hjoiner, hrest⟩ := List.forall_mem_cons.1 hj
    cases joiner with
    | comparing comparison keys =>
      rw [mergeFrom] at h
      split at h
      · cases h
      · refine ih h ⟨fun c hc => ?_, hr.predicates⟩ hrest
        rcases List.mem_append.1 hc with hc | hc
        · exact hr.comparisons c hc
        · rw [List.mem_singleton.1 hc]
          exact hjoiner
    | matchAll =>
      rw [mergeFrom] at h
      split at h
      · cases h
      · exact ih h ⟨hr.comparisons, hr.predicates⟩ hrest
    | filtering p =>
      rw [mergeFrom] at h
      refine ih h ⟨hr.comparisons, fun q hq => ?_⟩ hrest
      rcases List.mem_append.1 hq with hq | hq
      · exact hr.predicates q hq
      · rw [List.mem_singleton.1 hq]
        exact hjoiner

theorem merge_respects {joiners : List Joiner} {rule : JoinRule} (h : merge joiners = .ok rule)
    (hj : ∀ joiner ∈ joiners, joiner.Respects) : rule.Respects :=
  mergeFrom_respects h ⟨fun _ hc => absurd hc List.not_mem_nil, fun _ hp =>
    absurd hp List.not_mem_nil⟩ hj

end Joiner

end MatchAlgebra
