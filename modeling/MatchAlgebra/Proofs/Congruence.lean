import MatchAlgebra.Proofs.Accumulation
import MatchAlgebra.Session.Evaluation

/-!
# Functions that respect equality

Plans are made of functions that someone else supplies.  A function respects equality if it gives
equal results on equal arguments, so that it cannot tell two spellings of a value apart.  A plan
respects equality if all of its functions do, those in the inputs of its groupings included.
-/

namespace MatchAlgebra

/-! ## Parts of conditions -/

namespace Condition

mutual

/-- The condition and all conditions inside it, each before its own input. -/
def parts : Condition → List Condition
  | .step id s => [.step id s]
  | .group id grouping input => .group id grouping input :: partsAll input

def partsAll : List Condition → List Condition
  | [] => []
  | c :: cs => c.parts ++ partsAll cs

end

theorem self_mem_parts (c : Condition) : c ∈ c.parts := by
  cases c <;> exact List.mem_cons_self

theorem partsAll_append (cs ds : List Condition) :
    partsAll (cs ++ ds) = partsAll cs ++ partsAll ds := by
  induction cs with
  | nil => rfl
  | cons c cs ih => rw [List.cons_append, partsAll, partsAll, ih, List.append_assoc]

theorem partsAll_subset_left (cs ds : List Condition) : partsAll cs ⊆ partsAll (cs ++ ds) := by
  rw [partsAll_append]
  exact List.subset_append_left _ _

theorem partsAll_subset_right (cs ds : List Condition) : partsAll ds ⊆ partsAll (cs ++ ds) := by
  rw [partsAll_append]
  exact List.subset_append_right _ _

theorem mem_partsAll {cs : List Condition} {d : Condition} :
    d ∈ partsAll cs ↔ ∃ c ∈ cs, d ∈ c.parts := by
  induction cs with
  | nil => simp [partsAll]
  | cons c cs ih => rw [partsAll, List.mem_append, ih, List.exists_mem_cons_iff]

/-- What holds of all parts of conditions holds of the parts of each. -/
theorem forall_partsAll_cons {P : Condition → Prop} {c : Condition} {cs : List Condition} :
    (∀ d ∈ partsAll (c :: cs), P d) ↔ (∀ d ∈ c.parts, P d) ∧ ∀ d ∈ partsAll cs, P d := by
  rw [partsAll]
  exact List.forall_mem_append

theorem forall_parts_group {P : Condition → Prop} {id : Nat} {grouping : Grouping}
    {input : List Condition} : (∀ d ∈ (group id grouping input).parts, P d) ↔
      P (.group id grouping input) ∧ ∀ d ∈ partsAll input, P d := by
  rw [parts]
  exact List.forall_mem_cons

mutual

/-- Parts of parts are parts. -/
theorem parts_subset_parts {d : Condition} : ∀ c : Condition, d ∈ c.parts → d.parts ⊆ c.parts
  | .step _ _, h => List.mem_singleton.1 h ▸ List.Subset.refl _
  | .group _ _ input, h => by
    rcases List.mem_cons.1 h with rfl | h
    · exact List.Subset.refl _
    · exact List.subset_cons_of_subset _ (parts_subset_partsAll input h)

theorem parts_subset_partsAll {d : Condition} :
    ∀ cs : List Condition, d ∈ partsAll cs → d.parts ⊆ partsAll cs
  | [], h => absurd h List.not_mem_nil
  | c :: cs, h => by
    rcases List.mem_append.1 h with h | h
    · exact List.subset_append_of_subset_left _ (parts_subset_parts c h)
    · exact List.subset_append_of_subset_right _ (parts_subset_partsAll cs h)

end

end Condition

/-! ## Respect -/

def TupleFunction.Respects (f : TupleFunction) : Prop :=
  ∀ as bs : List Value, as == bs → f as == f bs

def TuplePredicate.Respects (p : TuplePredicate) : Prop :=
  ∀ as bs : List Value, as == bs → p as = p bs

def FactFunction.Respects (f : FactFunction) : Prop :=
  ∀ a b : Value, a == b → f a == f b

def JoinPredicate.Respects (p : JoinPredicate) : Prop :=
  ∀ (as bs : List Value) (a b : Value), as == bs → a == b → p as a = p bs b

structure KeyPair.Respects (keys : KeyPair) : Prop where
  left : TupleFunction.Respects keys.left
  right : FactFunction.Respects keys.right

structure JoinRule.Respects (rule : JoinRule) : Prop where
  comparisons : ∀ c ∈ rule.comparisons, c.keys.Respects
  predicates : ∀ p ∈ rule.predicates, JoinPredicate.Respects p

def Joiner.Respects : Joiner → Prop
  | .comparing _ keys => keys.Respects
  | .matchAll => True
  | .filtering p => JoinPredicate.Respects p

structure Collector.Respects (collector : Collector) : Prop where
  mapping : TupleFunction.Respects collector.mapping
  lawful : collector.measure.Lawful

def Weigher.Respects : Weigher → Prop
  | .unit => True
  | .long f => ∀ as bs : List Value, as == bs → f as = f bs
  | .decimal f => ∀ as bs : List Value, as == bs → (f as).beq (f bs)

def Step.Respects : Step → Prop
  | .pattern _ _ => True
  | .filter _ p => TuplePredicate.Respects p
  | .join test => test.comparison.keys.Respects
  | .bind _ _ f => TupleFunction.Respects f
  | .existence test => test.joiners.Respects

structure Grouping.Respects (grouping : Grouping) : Prop where
  key : ∀ key ∈ grouping.key, TupleFunction.Respects key.function
  collectors : ∀ c ∈ grouping.collectors, c.Respects

namespace Condition

/-- Whether the functions of the condition itself, its input apart, respect equality. -/
def SelfRespects : Condition → Prop
  | .step _ s => s.Respects
  | .group _ grouping _ => grouping.Respects

def Respects (c : Condition) : Prop := ∀ d ∈ c.parts, d.SelfRespects

def RespectsAll (cs : List Condition) : Prop := ∀ d ∈ partsAll cs, d.SelfRespects

end Condition

structure Plan.Respects (plan : Plan) : Prop where
  conditions : Condition.RespectsAll plan.conditions
  weigher : plan.weigher.Respects

/-! ## Respect by senses -/

section
variable {as bs : List Value} (hs : as.map Value.sense = bs.map Value.sense)
include hs

theorem TupleFunction.Respects.sense {f : TupleFunction} (h : TupleFunction.Respects f) :
    (f as).sense = (f bs).sense :=
  Value.sense_inj.2 (h as bs (Value.senses_inj.1 hs))

theorem TuplePredicate.Respects.eq {p : TuplePredicate} (h : TuplePredicate.Respects p) :
    p as = p bs :=
  h as bs (Value.senses_inj.1 hs)

theorem Weigher.Respects.weigh {w : Weigher} (h : w.Respects) :
    (w.weigh as == w.weigh bs) = true := by
  have hab := Value.senses_inj.1 hs
  cases w with
  | unit => rfl
  | long f =>
    show (f as == f bs) = true
    rw [h as bs hab]
    exact BEq.rfl
  | decimal f =>
    show (f as).beq (f bs) = true
    exact h as bs hab

end

/-! ## The functions of the library -/

theorem respects_valueAt (index : Nat) : TupleFunction.Respects (valueAt index) := by
  intro as bs hab
  have same := congrArg (·[index]?) (Value.senses_inj.2 hab)
  simp only [List.getElem?_map] at same
  rw [← Value.sense_inj, valueAt, valueAt]
  cases ha : as[index]? with
  | none =>
    rw [ha, Option.map_none, eq_comm, Option.map_eq_none_iff] at same
    rw [same]
  | some a =>
    rw [ha, Option.map_some, eq_comm, Option.map_eq_some_iff] at same
    obtain ⟨b, hb, hab⟩ := same
    rw [hb]
    exact hab.symm

theorem respects_wholeTuple : TupleFunction.Respects wholeTuple := fun _ _ hab =>
  Value.sense_inj.1 (Value.sense_tuple (Value.senses_inj.2 hab))

/-! ## Comparisons and rules -/

theorem all_eq_of_mem {α : Type} {l : List α} {p q : α → Bool} (h : ∀ a ∈ l, p a = q a) :
    l.all p = l.all q := by
  rw [Bool.eq_iff_iff, List.all_eq_true, List.all_eq_true]
  exact forall₂_congr fun a ha => by rw [h a ha]

theorem Comparison.holds_congr (c : Comparison) {a a' b b' : Value} (ha : a.sense = a'.sense)
    (hb : b.sense = b'.sense) : c.holds a b = c.holds a' b' := by
  have same : a.compare b = a'.compare b' := by
    rw [Std.TransCmp.congr_left (Value.sense_eq_iff_compare.1 ha),
      Std.TransCmp.congr_right (Value.sense_eq_iff_compare.1 hb)]
  have equal : (a == b) = (a' == b') := by
    rw [← Value.sense_beq, ← Value.sense_beq, ha, hb]
  cases c <;> simp only [holds, bne, same, equal]

section
variable {as bs : List Value} {a b : Value} (hs : as.map Value.sense = bs.map Value.sense)
  (h : a.sense = b.sense)
include hs h

theorem KeyComparison.holds_congr {c : KeyComparison} (hc : c.keys.Respects) :
    c.holds as a = c.holds bs b :=
  c.comparison.holds_congr (hc.left.sense hs)
    (Value.sense_inj.2 (hc.right a b (Value.sense_inj.1 h)))

theorem JoinRule.holds_congr {rule : JoinRule} (hr : rule.Respects) :
    rule.holds as a = rule.holds bs b := by
  obtain ⟨indexed, filter⟩ := rule
  obtain ⟨comparisons, predicates⟩ := hr
  have same_indexed : indexed.all (·.holds as a) = indexed.all (·.holds bs b) := by
    cases indexed with
    | none => rfl
    | some cs =>
      exact all_eq_of_mem fun c hc => KeyComparison.holds_congr hs h (comparisons c hc)
  have same_filter : filter.all (·.holds as a) = filter.all (·.holds bs b) := by
    cases filter with
    | none => rfl
    | some ps =>
      exact all_eq_of_mem fun p hp =>
        predicates p hp _ _ _ _ (Value.senses_inj.1 hs) (Value.sense_inj.1 h)
  rw [holds, holds, same_indexed, same_filter]

end

theorem Value.senses_components {v w : Value} (h : v.sense = w.sense) :
    v.components.map sense = w.components.map sense := by
  have hvw := sense_inj.1 h
  cases v <;> cases w <;> try cases hvw <;> done
  case tuple.tuple as bs => exact senses_inj.2 (beqAll_eq as bs ▸ hvw)
  all_goals rfl

/-- The value of a collector depends only on the senses of the tuples and how often each occurs. -/
theorem Collector.Respects.over {collector : Collector} (h : collector.Respects)
    {sources others : List Value}
    (hp : (sources.map Value.sense).Perm (others.map Value.sense)) :
    (collector.over (sources.map Value.components)).sense =
      (collector.over (others.map Value.components)).sense := by
  refine Measure.over_congr h.lawful ?_
  simp only [List.map_map]
  exact perm_map_of_senses hp fun v w hvw =>
    h.mapping.sense (Value.senses_components (Value.sense_inj.2 hvw))

end MatchAlgebra
