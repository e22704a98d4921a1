import MatchAlgebra.Proofs.Built

/-!
# Where conditions come from

Every condition of an expression, at any depth, was made by one of the operations that the
expression was made by.  It hands the functions of that operation the variables of the slots of the
operand, in their order:

    Built s es  →  (t, e) ∈ es  →  d ∈ partsAll e.log.oldestFirst  →  d.MadeBy es t     (made_by)

The conditions that no operation was given a function for are made in groupings: one binds the whole
tuple for the collectors, others take the components out of a packed key.  The variables that they
use besides are declared as tuples, which no visible variable is.
-/

namespace MatchAlgebra

namespace Term

/-- The number of values in a row of the term. -/
def degree : Term → Nat
  | .forEach _ => 1
  | .filter t _ => t.degree
  | .join left _ _ => left.degree + 1
  | .existence t _ _ _ => t.degree
  | .map _ _ => 1
  | .groupBy _ request => request.degree

/-- The term and the terms that it was made of. -/
def parts : Term → List Term
  | .forEach type => [.forEach type]
  | .filter t predicate => .filter t predicate :: t.parts
  | .join left right joiners => .join left right joiners :: (left.parts ++ right.parts)
  | .existence t quantifier type joiners => .existence t quantifier type joiners :: t.parts
  | .map t function => .map t function :: t.parts
  | .groupBy t request => .groupBy t request :: t.parts

end Term

namespace Layout

variable {t : Term} {cs : List Condition} {vs : List Variable}

/-- There is a variable for each value. -/
theorem length_eq (h : Layout t cs vs) : vs.length = t.degree := by
  induction h with
  | forEach => rfl
  | filter _ _ ih => exact ih
  | join _ _ _ _ _ ih _ => rw [List.length_append, ih, Term.degree, List.length_singleton]
  | existence _ _ _ ih => exact ih
  | map => rfl
  | groupBy _ _ _ _ packs measures => exact length_groupBy packs measures

/-- No tuple is visible. -/
theorem visible_ne_tuple (h : Layout t cs vs) : ∀ v ∈ vs, ∀ n, v.type ≠ .tuple n := by
  have other : ∀ {v : Variable} {type : VariableType}, v.type = type → (∀ n, type ≠ .tuple n) →
      ∀ n, v.type ≠ .tuple n := fun hv htype n => hv ▸ htype n
  have value : ∀ n, VariableType.value ≠ .tuple n := by
    intro n heq
    cases heq
  induction h with
  | forEach declared =>
    refine List.forall_mem_singleton.2 (other declared fun n heq => ?_)
    cases heq
  | filter _ _ ih => exact ih
  | join _ _ _ _ _ ihl ihr => exact List.forall_mem_append.2 ⟨ihl, ihr⟩
  | existence _ _ _ ih => exact ih
  | map _ declared => exact List.forall_mem_singleton.2 (other declared value)
  | groupBy _ _ _ _ packs _ declared =>
    refine List.forall_mem_append.2 ⟨fun v hv => ?_, fun v hv => ?_⟩
    · exact other (packs.declared v hv) value
    · obtain ⟨output, houtput, rfl⟩ := List.mem_map.1 hv
      exact other (declared output houtput) value

end Layout

/-! ## Origins -/

/-- The condition was made by an operation in the whole term.  Its functions are those of the
operation, and what it hands to them are the visible variables of the operand, an expression that
had been built. -/
inductive Condition.MadeBy (es : List (Term × Expression)) (whole : Term) : Condition → Prop
  | pattern {type : FactType} {bound : Variable} (id : Nat)
      (operation : .forEach type ∈ whole.parts) (declared : bound.type = .fact type) :
      MadeBy es whole (.step id (.pattern bound type))
  | filter {t : Term} {e : Expression} {predicate : TuplePredicate} (id : Nat)
      (operation : .filter t predicate ∈ whole.parts) (operand : (t, e) ∈ es) :
      MadeBy es whole (.step id (.filter e.visible predicate))
  | comparison {left right : Term} {l o : Expression} {joiners : List Joiner} {rule : JoinRule}
      {index : Nat} {comparison : KeyComparison} (id : Nat)
      (operation : .join left right joiners ∈ whole.parts) (left_operand : (left, l) ∈ es)
      (right_operand : (right, o) ∈ es) (single : o.visible = [o.last.bound])
      (merged : Joiner.merge joiners = .ok rule)
      (place : rule.comparisons[index]? = some comparison) :
      MadeBy es whole (.step id (.join ⟨l.visible, o.last.bound, index, comparison⟩))
  | predicates {left right : Term} {l o : Expression} {joiners : List Joiner} {rule : JoinRule}
      {filter : JoinPredicates} (id : Nat) (operation : .join left right joiners ∈ whole.parts)
      (left_operand : (left, l) ∈ es) (right_operand : (right, o) ∈ es)
      (single : o.visible = [o.last.bound]) (merged : Joiner.merge joiners = .ok rule)
      (filtering : rule.filter = some filter) :
      MadeBy es whole (.step id
        (.filter (l.visible ++ [o.last.bound]) (filter.overPair l.visible.length)))
  | existence {t : Term} {e : Expression} {quantifier : Quantifier} {type : FactType}
      {joiners : List Joiner} {rule : JoinRule} {candidate : Variable} (id : Nat)
      (operation : .existence t quantifier type joiners ∈ whole.parts) (operand : (t, e) ∈ es)
      (merged : Joiner.merge joiners = .ok rule) :
      MadeBy es whole (.step id (.existence ⟨quantifier, candidate, type, e.visible, rule⟩))
  | map {t : Term} {e : Expression} {function : TupleFunction} {bound : Variable} (id : Nat)
      (operation : .map t function ∈ whole.parts) (operand : (t, e) ∈ es)
      (declared : bound.type = .value) :
      MadeBy es whole (.step id (.bind bound e.visible function))
  | source {t : Term} {e : Expression} {request : GroupRequest} {source : Variable} (id : Nat)
      (operation : .groupBy t request ∈ whole.parts) (operand : (t, e) ∈ es)
      (declared : source.type = .tuple e.visible.length) :
      MadeBy es whole (.step id (.bind source e.visible wholeTuple))
  | component {t : Term} {request : GroupRequest} {key v : Variable} {index : Nat} (id : Nat)
      (operation : .groupBy t request ∈ whole.parts)
      (key_declared : key.type = .tuple request.keys.length) (place : index < request.keys.length)
      (declared : v.type = .value) :
      MadeBy es whole (.step id (.bind v [key] (keyComponent index)))
  | group {t : Term} {e : Expression} {request : GroupRequest} {input components : List Condition}
      {keys : List Variable} {source : Option Variable} {key : Option GroupKey}
      {outputs : List CollectorOutput} (id : Nat) (operation : .groupBy t request ∈ whole.parts)
      (operand : (t, e) ∈ es)
      (sources : SourceLayout e.visible e.log.oldestFirst request.collectors source input)
      (packs : KeyLayout request.keys key keys components)
      (measures : outputs.map (·.collector) = request.collectors)
      (declared : ∀ output ∈ outputs, output.bound.type = .value) :
      MadeBy es whole (.group id ⟨e.visible, source, key, outputs⟩ input)

namespace Condition.MadeBy

variable {es later : List (Term × Expression)} {whole : Term} {d : Condition}

/-- Nothing that was built is forgotten, and the parts of a part are parts. -/
theorem mono (h : d.MadeBy es whole) (built : es ⊆ later) {t : Term}
    (part : whole.parts ⊆ t.parts) : d.MadeBy later t := by
  cases h with
  | pattern id operation declared => exact .pattern id (part operation) declared
  | filter id operation operand => exact .filter id (part operation) (built operand)
  | comparison id operation left_operand right_operand single merged place =>
    exact .comparison id (part operation) (built left_operand) (built right_operand) single merged
      place
  | predicates id operation left_operand right_operand single merged filtering =>
    exact .predicates id (part operation) (built left_operand) (built right_operand) single merged
      filtering
  | existence id operation operand merged =>
    exact .existence id (part operation) (built operand) merged
  | map id operation operand declared => exact .map id (part operation) (built operand) declared
  | source id operation operand declared =>
    exact .source id (part operation) (built operand) declared
  | component id operation key_declared place declared =>
    exact .component id (part operation) key_declared place declared
  | group id operation operand sources packs measures declared =>
    exact .group id (part operation) (built operand) sources packs measures declared

theorem of_joinSteps {left right : Term} {l o : Expression} {joiners : List Joiner}
    {rule : JoinRule} (operation : .join left right joiners ∈ whole.parts)
    (left_operand : (left, l) ∈ es) (right_operand : (right, o) ∈ es)
    (single : o.visible = [o.last.bound]) (merged : Joiner.merge joiners = .ok rule) {s : Step}
    (hs : s ∈ Expression.joinSteps l.visible o.last.bound rule) (id : Nat) :
    (Condition.step id s).MadeBy es whole := by
  rcases List.mem_append.1 hs with hs | hs
  · obtain ⟨⟨c, index⟩, hc, rfl⟩ := List.mem_map.1 hs
    exact .comparison id operation left_operand right_operand single merged
      (List.mem_zipIdx_iff_getElem?.1 hc)
  · obtain ⟨filter, hfilter, rfl⟩ := List.mem_map.1 hs
    exact .predicates id operation left_operand right_operand single merged
      (Option.mem_toList.1 hfilter)

end Condition.MadeBy

/-- All conditions of the expression were made by operations in the term. -/
def Expression.MadeBy (es : List (Term × Expression)) (t : Term) (e : Expression) : Prop :=
  ∀ d ∈ Condition.partsAll e.log.oldestFirst, d.MadeBy es t

namespace Registry

variable {r : Registry} {es : List (Term × Expression)} {s : Supply} {t : Term}
  {e e' : Expression}

/-- One more condition at the end. -/
theorem made_by_snoc {log log' : List Condition} {c : Condition} {step : Step}
    (hlog : ∀ d ∈ Condition.partsAll log, d.MadeBy es t) (does : c.Does step)
    (hstep : ∀ id, (Condition.step id step).MadeBy es t) (conditions : log' = log ++ [c]) :
    ∀ d ∈ Condition.partsAll log', d.MadeBy es t := by
  rw [conditions]
  refine Condition.forall_partsAll_append_steps does.singleton hlog fun d s hs hd => ?_
  cases List.mem_singleton.1 hs
  obtain ⟨id, rfl⟩ := hd
  exact hstep id

/-- What an operation makes of expressions that operations made is made by operations. -/
theorem made_by_of_derives (shapes : ∀ p ∈ es, r.Shapes p.1 p.2)
    (made : ∀ p ∈ es, p.2.MadeBy es p.1) (derives : Derives r.supply es t e s) :
    e.MadeBy es t := by
  have kept : ∀ {p : Term × Expression}, p ∈ es → p.1.parts ⊆ t.parts →
      ∀ d ∈ Condition.partsAll p.2.log.oldestFirst, d.MadeBy es t :=
    fun hp part d hd => (made _ hp d hd).mono (List.Subset.refl _) part
  cases derives with
  | @forEach _ _ type _ makes =>
    obtain ⟨_, -, -, -, -, bound, c, -, declared, -, does, conditions⟩ := reaches_forEach makes
    have nothing : ∀ d ∈ Condition.partsAll [], d.MadeBy es (.forEach type) :=
      fun d hd => absurd hd List.not_mem_nil
    exact made_by_snoc nothing does
      (fun id => .pattern id List.mem_cons_self declared) conditions
  | filter operand makes =>
    obtain ⟨_, -, -, -, -, -, c, does, conditions⟩ := reaches_require (shapes _ operand) makes
    exact made_by_snoc (kept operand (List.subset_cons_self _ _)) does
      (fun id => .filter id List.mem_cons_self operand) conditions
  | existence operand makes =>
    obtain ⟨rule, candidate, middle, merged, hcreate, makes⟩ := existence_yields makes
    obtain ⟨r₁, rfl, before, -⟩ := reaches_create hcreate
    obtain ⟨_, -, -, -, -, -, c, does, conditions⟩ :=
      reaches_require ((shapes _ operand).grow before.toGrows) makes
    exact made_by_snoc (kept operand (List.subset_cons_self _ _)) does
      (fun id => .existence id List.mem_cons_self operand merged) conditions
  | map operand makes =>
    obtain ⟨_, -, -, -, -, bound, c, -, declared, -, does, conditions⟩ :=
      reaches_map (shapes _ operand) makes
    exact made_by_snoc (kept operand (List.subset_cons_self _ _)) does
      (fun id => .map id List.mem_cons_self operand declared) conditions
  | join left_operand right_operand makes =>
    obtain ⟨_, -, -, -, -, -, rule, tests, joinable, conditions, does⟩ :=
      reaches_join (shapes _ left_operand) (shapes _ right_operand) makes
    obtain ⟨-, degree, -, merged⟩ := joinable_eq_ok.1 joinable
    rw [Expression.MadeBy, conditions]
    refine Condition.forall_partsAll_append_steps does ?_ fun c step hstep hc => ?_
    · rw [Condition.partsAll_append]
      exact List.forall_mem_append.2
        ⟨kept left_operand (List.subset_cons_of_subset _ (List.subset_append_left _ _)),
          kept right_operand (List.subset_cons_of_subset _ (List.subset_append_right _ _))⟩
    · obtain ⟨id, rfl⟩ := hc
      exact .of_joinSteps List.mem_cons_self left_operand right_operand
        ((shapes _ right_operand).inStep.visible_of_degree degree) merged hstep id
  | groupBy operand makes =>
    obtain ⟨_, -, -, -, -, -, -, id, source, key, outputs, input, keys, components, -, sources,
      packs, measures, declared, -, conditions⟩ := reaches_groupBy (shapes _ operand) makes
    obtain ⟨steps, does, unpacks⟩ := packs.exists_steps
    rw [Expression.MadeBy, conditions, ← List.singleton_append]
    refine Condition.forall_partsAll_append_steps does ?_ fun c step hstep hc => ?_
    · refine Condition.forall_partsAll_cons.2 ⟨Condition.forall_parts_group.2 ⟨?_, ?_⟩,
        fun d hd => absurd hd List.not_mem_nil⟩
      · exact .group id List.mem_cons_self operand sources packs measures declared
      · exact sources.forall_partsAll (kept operand (List.subset_cons_self _ _))
          fun id source source_declared => .source id List.mem_cons_self operand source_declared
    · obtain ⟨k, -, v, -, index, rfl, v_declared, key_declared, place⟩ := unpacks step hstep
      obtain ⟨id, rfl⟩ := hc
      exact .component id List.mem_cons_self key_declared place v_declared

end Registry

/-- Every condition of an expression was made by one of its operations. -/
theorem Built.made_by {s : Supply} {es : List (Term × Expression)} (h : Built s es) :
    ∀ p ∈ es, p.2.MadeBy es p.1 := by
  have all : ∃ r : Registry, r.supply = s ∧ (∀ p ∈ es, r.Stands p.1 p.2) ∧
      ∀ p ∈ es, p.2.MadeBy es p.1 := by
    refine h.induct (P := fun s es => ∃ r : Registry, r.supply = s ∧
      (∀ p ∈ es, r.Stands p.1 p.2) ∧ ∀ p ∈ es, p.2.MadeBy es p.1) ?_ ?_ ?_
    · exact fun s => ⟨.new s, rfl, fun p hp => absurd hp List.not_mem_nil,
        fun p hp => absurd hp List.not_mem_nil⟩
    · rintro s s' es ⟨r, rfl, stands, made⟩ later
      obtain ⟨r', hr', before⟩ := r.exists_of_before later
      exact ⟨r', hr', fun p hp => (stands p hp).mono before, made⟩
    · rintro s es t e s' ⟨r, rfl, stands, made⟩ derives
      obtain ⟨r', hr', stands'⟩ := r.exists_of_derives stands derives
      have new := Registry.made_by_of_derives (fun p hp => (stands p hp).shapes) made derives
      have more := List.subset_cons_self (t, e) es
      refine ⟨r', hr', stands', List.forall_mem_cons.2 ⟨fun d hd => ?_, fun p hp d hd => ?_⟩⟩
      · exact (new d hd).mono more (List.Subset.refl _)
      · exact (made p hp d hd).mono more (List.Subset.refl _)
  obtain ⟨-, -, -, made⟩ := all
  exact made

end MatchAlgebra
