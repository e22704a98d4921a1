import MatchAlgebra.Proofs.Groups
import MatchAlgebra.Proofs.History

/-!
# What can be built

Whatever is built from a supply, in whatever order and with whatever parts in common, each of the
expressions stands for the term that says how it was built:

    Built s es  →  ∃ r, r.supply = s ∧ ∀ (t, e) ∈ es, r.Stands t e          (Built.exists_registry)

What can be said without fresh variables, that every expression is shaped as its term, also holds
where the numbers of variables start anew (`LooselyBuilt.exists_registry`).
-/

namespace MatchAlgebra

/-- The expressions that have been built when a supply is reached, each with the term that it was
built as.  Operands may be used any number of times, and in between other things may be built that
only use up numbers. -/
inductive Built : Supply → List (Term × Expression) → Prop
  | start (s : Supply) : Built s []
  | other {s s' : Supply} {es : List (Term × Expression)} (h : Built s es) (later : s.Before s') :
      Built s' es
  | forEach {s s' : Supply} {es : List (Term × Expression)} {factory : Factory} {type : FactType}
      {e : Expression} (h : Built s es) (makes : (Expression.forEach factory type).Yields s e s') :
      Built s' ((.forEach type, e) :: es)
  | filter {s s' : Supply} {es : List (Term × Expression)} {t : Term} {e e' : Expression}
      {predicate : TuplePredicate} (h : Built s es) (operand : (t, e) ∈ es)
      (makes : (e.filter predicate).Yields s e' s') : Built s' ((.filter t predicate, e') :: es)
  | join {s s' : Supply} {es : List (Term × Expression)} {left right : Term}
      {l o e' : Expression} {joiners : List Joiner} (h : Built s es) (left_operand : (left, l) ∈ es)
      (right_operand : (right, o) ∈ es) (makes : (l.join o joiners).Yields s e' s') :
      Built s' ((.join left right joiners, e') :: es)
  | existence {s s' : Supply} {es : List (Term × Expression)} {t : Term} {e e' : Expression}
      {factory : Factory} {quantifier : Quantifier} {type : FactType} {joiners : List Joiner}
      (h : Built s es) (operand : (t, e) ∈ es)
      (makes : (e.checkExistence factory quantifier type joiners).Yields s e' s') :
      Built s' ((.existence t quantifier type joiners, e') :: es)
  | map {s s' : Supply} {es : List (Term × Expression)} {t : Term} {e e' : Expression}
      {factory : Factory} {function : TupleFunction} (h : Built s es) (operand : (t, e) ∈ es)
      (makes : (e.map factory function).Yields s e' s') : Built s' ((.map t function, e') :: es)
  | groupBy {s s' : Supply} {es : List (Term × Expression)} {t : Term} {e e' : Expression}
      {factory : Factory} {request : GroupRequest} (h : Built s es) (operand : (t, e) ∈ es)
      (makes : (e.groupBy factory request).Yields s e' s') :
      Built s' ((.groupBy t request, e') :: es)

/-! ## Operations -/

/-- An operation of the algebra makes an expression of those that there are; the term says which. -/
inductive Derives (s : Supply) (es : List (Term × Expression)) : Term → Expression → Supply → Prop
  | forEach {s' : Supply} {factory : Factory} {type : FactType} {e : Expression}
      (makes : (Expression.forEach factory type).Yields s e s') :
      Derives s es (.forEach type) e s'
  | filter {s' : Supply} {t : Term} {e e' : Expression} {predicate : TuplePredicate}
      (operand : (t, e) ∈ es) (makes : (e.filter predicate).Yields s e' s') :
      Derives s es (.filter t predicate) e' s'
  | join {s' : Supply} {left right : Term} {l o e' : Expression} {joiners : List Joiner}
      (left_operand : (left, l) ∈ es) (right_operand : (right, o) ∈ es)
      (makes : (l.join o joiners).Yields s e' s') : Derives s es (.join left right joiners) e' s'
  | existence {s' : Supply} {t : Term} {e e' : Expression} {factory : Factory}
      {quantifier : Quantifier} {type : FactType} {joiners : List Joiner} (operand : (t, e) ∈ es)
      (makes : (e.checkExistence factory quantifier type joiners).Yields s e' s') :
      Derives s es (.existence t quantifier type joiners) e' s'
  | map {s' : Supply} {t : Term} {e e' : Expression} {factory : Factory} {function : TupleFunction}
      (operand : (t, e) ∈ es) (makes : (e.map factory function).Yields s e' s') :
      Derives s es (.map t function) e' s'
  | groupBy {s' : Supply} {t : Term} {e e' : Expression} {factory : Factory}
      {request : GroupRequest} (operand : (t, e) ∈ es)
      (makes : (e.groupBy factory request).Yields s e' s') :
      Derives s es (.groupBy t request) e' s'

/-- Whatever the slots are, operations keep the context in step with them. -/
theorem Derives.inStep {s s' : Supply} {es : List (Term × Expression)} {t : Term} {e : Expression}
    (operands : ∀ p ∈ es, p.2.InStep) (derives : Derives s es t e s') : e.InStep := by
  cases derives with
  | forEach makes => exact Expression.inStep_forEach makes
  | filter operand makes => exact Expression.inStep_require (operands _ operand) makes
  | join _ _ makes => exact Expression.inStep_join makes
  | existence operand makes => exact Expression.inStep_existence (operands _ operand) makes
  | map _ makes => exact Expression.inStep_map makes
  | groupBy _ makes => exact Expression.inStep_groupBy makes

theorem Registry.makes_of_derives {r : Registry} {s : Supply} {es : List (Term × Expression)}
    {t : Term} {e : Expression} (shapes : ∀ p ∈ es, r.Shapes p.1 p.2)
    (derives : Derives r.supply es t e s) :
    r.Makes s (∀ p ∈ es, r.Names p.2.log.oldestFirst) t e := by
  -- the names that are asked for are those of the operands
  have operands : ∀ {named : Prop}, r.Makes s named t e →
      ((∀ p ∈ es, r.Names p.2.log.oldestFirst) → named) →
      r.Makes s (∀ p ∈ es, r.Names p.2.log.oldestFirst) t e :=
    fun ⟨later, hlater, before, shapes, names⟩ h =>
      ⟨later, hlater, before, shapes, fun named => names (h named)⟩
  cases derives with
  | forEach makes => exact operands (makes_forEach makes) fun _ => trivial
  | filter operand makes =>
    exact operands (makes_filter (shapes _ operand) makes) fun named => named _ operand
  | join left_operand right_operand makes =>
    exact operands (makes_join (shapes _ left_operand) (shapes _ right_operand) makes)
      fun named => ⟨named _ left_operand, named _ right_operand⟩
  | existence operand makes =>
    exact operands (makes_existence (shapes _ operand) makes) fun named => named _ operand
  | map operand makes =>
    exact operands (makes_map (shapes _ operand) makes) fun named => named _ operand
  | groupBy operand makes =>
    exact operands (makes_groupBy (shapes _ operand) makes) fun named => named _ operand

/-- An operation on expressions that stand for terms makes one more. -/
theorem Registry.exists_of_derives (r : Registry) {s : Supply} {es : List (Term × Expression)}
    {t : Term} {e : Expression} (stands : ∀ p ∈ es, r.Stands p.1 p.2)
    (derives : Derives r.supply es t e s) :
    ∃ later : Registry, later.supply = s ∧ ∀ p ∈ (t, e) :: es, later.Stands p.1 p.2 := by
  have makes := r.makes_of_derives (fun p hp => (stands p hp).shapes) derives
  obtain ⟨later, hlater, before, made⟩ := Registry.Stands.of_makes makes
    fun p hp => (stands p hp).names
  refine ⟨later, hlater, List.forall_mem_cons.2 ⟨made, fun p hp => ?_⟩⟩
  exact (stands p hp).mono before

/-! ## With fresh variables -/

namespace Built

variable {s s' : Supply} {es : List (Term × Expression)} {t : Term} {e : Expression}

/-- What holds at the start and is kept by operations holds of all that is built. -/
theorem induct {P : Supply → List (Term × Expression) → Prop} (start : ∀ s, P s [])
    (other : ∀ {s s' es}, P s es → s.Before s' → P s' es)
    (operation : ∀ {s es t e s'}, P s es → Derives s es t e s' → P s' ((t, e) :: es))
    (h : Built s es) : P s es := by
  induction h with
  | start s => exact start s
  | other _ later ih => exact other ih later
  | forEach _ makes ih => exact operation ih (.forEach makes)
  | filter _ operand makes ih => exact operation ih (.filter operand makes)
  | join _ left_operand right_operand makes ih =>
    exact operation ih (.join left_operand right_operand makes)
  | existence _ operand makes ih => exact operation ih (.existence operand makes)
  | map _ operand makes ih => exact operation ih (.map operand makes)
  | groupBy _ operand makes ih => exact operation ih (.groupBy operand makes)

/-- Every expression stands for its term. -/
theorem exists_registry (h : Built s es) :
    ∃ r : Registry, r.supply = s ∧ ∀ p ∈ es, r.Stands p.1 p.2 := by
  refine h.induct (P := fun s es => ∃ r : Registry, r.supply = s ∧ ∀ p ∈ es, r.Stands p.1 p.2)
    (fun s => ⟨.new s, rfl, fun p hp => absurd hp List.not_mem_nil⟩) ?_ ?_
  · rintro s s' es ⟨r, rfl, stands⟩ later
    obtain ⟨r', hr', before⟩ := r.exists_of_before later
    exact ⟨r', hr', fun p hp => (stands p hp).mono before⟩
  · rintro s es t e s' ⟨r, rfl, stands⟩ derives
    exact r.exists_of_derives stands derives

end Built

/-- Conditions of one registry are told apart by their ids. -/
theorem Registry.identified_log {r : Registry} {log : Log} (h : r.Files log) :
    Condition.Identified log.oldestFirst := by
  have filed := partsAll_log_subset h
  exact fun c hc d hd heq => r.identified c (filed c hc) d (filed d hd) heq

/-! ## Without fresh variables -/

/-- As `Built`, but the numbers of variables may start anew between two operations.  So they do when
so many factories have been made that their scopes come round. -/
inductive LooselyBuilt : Supply → List (Term × Expression) → Prop
  | start (s : Supply) : LooselyBuilt s []
  | other {s s' : Supply} {es : List (Term × Expression)} (h : LooselyBuilt s es)
      (later : s.Onward s') : LooselyBuilt s' es
  | operation {s s' : Supply} {es : List (Term × Expression)} {t : Term} {e : Expression}
      (h : LooselyBuilt s es) (derives : Derives s es t e s') : LooselyBuilt s' ((t, e) :: es)

namespace LooselyBuilt

variable {s : Supply} {es : List (Term × Expression)}

theorem of_built (h : Built s es) : LooselyBuilt s es :=
  h.induct .start (fun h later => .other h later.onward) fun h derives => .operation h derives

/-- Every expression is shaped as its term. -/
theorem exists_registry (h : LooselyBuilt s es) :
    ∃ r : Registry, r.supply = s ∧ ∀ p ∈ es, r.Shapes p.1 p.2 := by
  induction h with
  | start s => exact ⟨.new s, rfl, fun p hp => absurd hp List.not_mem_nil⟩
  | other _ later ih =>
    obtain ⟨r, rfl, shapes⟩ := ih
    obtain ⟨r', hr', grows⟩ := r.exists_of_onward later
    exact ⟨r', hr', fun p hp => (shapes p hp).grow grows⟩
  | operation _ derives ih =>
    obtain ⟨r, rfl, shapes⟩ := ih
    obtain ⟨later, hlater, before, made, -⟩ := r.makes_of_derives shapes derives
    refine ⟨later, hlater, List.forall_mem_cons.2 ⟨made, fun p hp => ?_⟩⟩
    exact (shapes p hp).grow before.toGrows

end LooselyBuilt

/-! ## A sample

Facts of two types, their equal pairs, and the different values of the first type against greater
facts of the second.  What is shown of everything that is built is tried on them elsewhere. -/

namespace Sample

/-- The variable of that number of the first factory. -/
def numbered (base : String) (index : Nat) (type : VariableType) : Variable :=
  ⟨⟨1, index⟩, s!"{base}_{index}", type⟩

def left : FactType := ⟨"T"⟩

def right : FactType := ⟨"S"⟩

def v : Variable := numbered left.baseName 1 (.fact left)

def first : Condition := .step 1 (.pattern v left)

/-- The facts of the first type. -/
def facts : Expression := .ofSlot ⟨v, .link .empty 0 1 first⟩

def afterFacts : Supply :=
  { created := fun scope => if scope = 1 then 1 else 0, drawn := 1, nextNode := 1 }

theorem makes_facts : (Expression.forEach ⟨1⟩ left).Yields {} facts afterFacts := rfl

theorem built_facts : Built afterFacts [(.forEach left, facts)] :=
  (Built.start {}).forEach makes_facts

/-! ### Equal pairs -/

def w : Variable := numbered right.baseName 2 (.fact right)

def second : Condition := .step 2 (.pattern w right)

/-- The facts of the second type. -/
def others : Expression := .ofSlot ⟨w, .link .empty 1 1 second⟩

def afterOthers : Supply :=
  { created := fun scope => if scope = 1 then 2 else afterFacts.created scope
    drawn := 2
    nextNode := 2 }

section
variable (key : TupleFunction)

def test : Condition := .step 3 (.join ⟨[v], w, 0, ⟨.equal, ⟨key, id⟩⟩⟩)

def tested : Log := .link (.link (.link .empty 0 1 first) 2 2 second) 3 3 (test key)

/-- The pairs whose second value is what the function makes of the first. -/
def pairs : Expression := ⟨[⟨v, .link .empty 0 1 first⟩], ⟨w, tested key⟩, ⟨[v, w], tested key⟩⟩

def pairing : Term := .join (.forEach left) (.forEach right) [.comparing .equal ⟨key, id⟩]

end

def afterPairs : Supply := { created := afterOthers.created, drawn := 3, nextNode := 4 }

theorem makes_others : (Expression.forEach ⟨1⟩ right).Yields afterFacts others afterOthers := rfl

theorem makes_pairs (key : TupleFunction) :
    (facts.join others [.comparing .equal ⟨key, id⟩]).Yields afterOthers (pairs key) afterPairs :=
  rfl

theorem built_pairs (key : TupleFunction) :
    Built afterPairs [(pairing key, pairs key), (.forEach right, others), (.forEach left, facts)] :=
  (built_facts.forEach makes_others).join (.tail _ (.head _)) (.head _) (makes_pairs key)

/-! ### Different values -/

def k : Variable := numbered "groupKey" 2 .value

def group : Condition := .group 2 ⟨[v], none, some ⟨k, valueAt 0⟩, []⟩ [first]

/-- The values of the first type, each once. -/
def values : Expression := .ofSlot ⟨k, .link .empty 1 1 group⟩

def grouping : Term := .groupBy (.forEach left) ⟨[valueAt 0], []⟩

def afterValues : Supply :=
  { created := fun scope => if scope = 1 then 2 else afterFacts.created scope
    drawn := 2
    nextNode := 2 }

theorem makes_values :
    (facts.groupBy ⟨1⟩ ⟨[valueAt 0], []⟩).Yields afterFacts values afterValues := rfl

theorem built_values : Built afterValues [(grouping, values), (.forEach left, facts)] :=
  built_facts.groupBy (.head _) makes_values

def x : Variable := numbered right.baseName 3 (.fact right)

def third : Condition := .step 3 (.pattern x right)

/-- The facts of the second type, with a later variable. -/
def rivals : Expression := .ofSlot ⟨x, .link .empty 2 1 third⟩

def afterRivals : Supply :=
  { created := fun scope => if scope = 1 then 3 else afterValues.created scope
    drawn := 3
    nextNode := 3 }

def present : JoinPredicate := fun _ x => x != .null

/-- Greater, and not null. -/
def joiners : List Joiner := [.comparing .lessThan ⟨valueAt 0, id⟩, .filtering present]

def less : Condition := .step 4 (.join ⟨[k], x, 0, ⟨.lessThan, ⟨valueAt 0, id⟩⟩⟩)

def kept : Condition := .step 5 (.filter [k, x] (JoinPredicates.overPair [present] 1))

def rising : Log :=
  .link (.link (.link (.link .empty 1 1 group) 3 2 third) 4 3 less) 5 4 kept

/-- The values with the facts of the second type that are greater. -/
def rises : Expression := ⟨[⟨k, .link .empty 1 1 group⟩], ⟨x, rising⟩, ⟨[k, x], rising⟩⟩

def afterRises : Supply := { created := afterRivals.created, drawn := 5, nextNode := 6 }

theorem makes_rivals : (Expression.forEach ⟨1⟩ right).Yields afterValues rivals afterRivals := rfl

theorem makes_rises : (values.join rivals joiners).Yields afterRivals rises afterRises := rfl

theorem built_rivals : Built afterRivals
    [(.forEach right, rivals), (grouping, values), (.forEach left, facts)] :=
  built_values.forEach makes_rivals

theorem built_rises : Built afterRises [(.join grouping (.forEach right) joiners, rises),
    (.forEach right, rivals), (grouping, values), (.forEach left, facts)] :=
  built_rivals.join (.tail _ (.head _)) (.head _) makes_rises

end Sample

end MatchAlgebra
