import MatchAlgebra.Proofs.Justification

/-!
# Merging loses no joiner

A list of joiners that is in order merges to a rule of two parts, which holds of a pair whenever
every joiner does:

    merge joiners = .ok rule  →  rule.comparisons = joiners.filterMap keyComparison?
    merge joiners = .ok rule  →  rule.predicates = joiners.filterMap predicate?

An error apart, merging is a fold (`mergeFrom_eq_foldl`), so both equations are inductions over the
list.  A join makes a test of each comparison and one filter of all predicates; these keep a row
just where the search of an existence check would take the same pair (`joinSteps_keep`).
-/

namespace MatchAlgebra

/-! ## Merging as a fold -/

namespace Joiner

/-- The comparison of the joiner with its own keys. -/
def keyComparison? : Joiner → Option KeyComparison
  | .comparing comparison keys => some ⟨comparison, keys⟩
  | _ => none

def predicate? : Joiner → Option JoinPredicate
  | .filtering predicate => some predicate
  | _ => none

end Joiner

/-- What a joiner in its place adds to the rule of those before it. -/
def JoinRule.add (rule : JoinRule) : Joiner → JoinRule
  | .comparing comparison keys => rule.addComparison ⟨comparison, keys⟩
  | .matchAll => { rule with indexed := some rule.comparisons }
  | .filtering predicate => rule.addPredicate predicate

theorem Joiner.mergeFrom_eq_foldl {all : List Joiner} {position : Nat} {joiners : List Joiner}
    {rule merged : JoinRule} (h : mergeFrom all position joiners rule = .ok merged) :
    joiners.foldl JoinRule.add rule = merged := by
  induction joiners generalizing position rule with
  | nil =>
    cases h
    rfl
  | cons joiner joiners ih =>
    rw [List.foldl_cons]
    cases joiner with
    | comparing comparison keys =>
      rw [mergeFrom] at h
      by_cases filtered : rule.filter.isSome = true
      · simp [filtered] at h
      · rw [if_neg filtered] at h
        exact ih h
    | matchAll =>
      rw [mergeFrom] at h
      by_cases several : 1 < all.length
      · simp [several] at h
      · rw [if_neg several] at h
        exact ih h
    | filtering predicate => exact ih h

namespace JoinRule

theorem comparisons_foldl_add (joiners : List Joiner) (rule : JoinRule) :
    (joiners.foldl add rule).comparisons =
      rule.comparisons ++ joiners.filterMap (·.keyComparison?) := by
  induction joiners generalizing rule with
  | nil => simp
  | cons joiner joiners ih =>
    rw [List.foldl_cons, ih]
    cases joiner <;>
      simp [add, addComparison, addPredicate, comparisons, Joiner.keyComparison?]

theorem predicates_foldl_add (joiners : List Joiner) (rule : JoinRule) :
    (joiners.foldl add rule).predicates =
      rule.predicates ++ joiners.filterMap (·.predicate?) := by
  induction joiners generalizing rule with
  | nil => simp
  | cons joiner joiners ih =>
    rw [List.foldl_cons, ih]
    cases joiner <;> simp [add, addComparison, addPredicate, predicates, Joiner.predicate?]

/-- The first part is there as soon as some joiner is no filter. -/
theorem isSome_indexed_foldl_add (joiners : List Joiner) (rule : JoinRule) :
    (joiners.foldl add rule).indexed.isSome =
      (rule.indexed.isSome || joiners.any fun joiner => !joiner.isFiltering) := by
  induction joiners generalizing rule with
  | nil => simp
  | cons joiner joiners ih =>
    rw [List.foldl_cons, ih]
    cases joiner <;> simp [add, addComparison, addPredicate, Joiner.isFiltering]

theorem isSome_filter_foldl_add (joiners : List Joiner) (rule : JoinRule) :
    (joiners.foldl add rule).filter.isSome =
      (rule.filter.isSome || joiners.any (·.isFiltering)) := by
  induction joiners generalizing rule with
  | nil => simp
  | cons joiner joiners ih =>
    rw [List.foldl_cons, ih]
    cases joiner <;> simp [add, addComparison, addPredicate, Joiner.isFiltering]

/-- A rule of no joiner at all is the only empty one. -/
theorem isEmpty_of_merge {joiners : List Joiner} {rule : JoinRule}
    (h : Joiner.merge joiners = .ok rule) : rule.isEmpty = joiners.isEmpty := by
  have indexed := isSome_indexed_foldl_add joiners empty
  have filter := isSome_filter_foldl_add joiners empty
  rw [Joiner.mergeFrom_eq_foldl h] at indexed filter
  rw [isEmpty, ← Option.not_isSome, ← Option.not_isSome, indexed, filter]
  cases joiners with
  | nil => rfl
  | cons joiner joiners =>
    by_cases first : joiner.isFiltering = true
    · simp [first]
    · simp [first]

end JoinRule

/-! ## Rows that are kept as they are -/

/-- Of rows of which `Q` holds the step keeps those on which the predicate holds. -/
def Step.Selects (Q : Row → Prop) (s : Step) (p : Row → Bool) : Prop :=
  ∀ (facts : List Fact) (limit : Nat) (rows : List Row), (∀ row ∈ rows, Q row) →
    s.apply facts limit rows = .ok (rows.filter p)

theorem Condition.deriveAll_selects {Q : Row → Prop} {cs : List Condition} {steps : List Step}
    {ps : List (Row → Bool)} (does : List.Forall₂ Does cs steps)
    (selects : List.Forall₂ (Step.Selects Q) steps ps) (groups : GroupRows) (facts : List Fact)
    (limit : Nat) {rows : List Row} (h : ∀ row ∈ rows, Q row) :
    deriveAll groups facts limit rows cs = .ok (rows.filter fun row => ps.all (· row)) := by
  induction does generalizing ps rows with
  | nil =>
    cases selects
    simp [deriveAll]
    rfl
  | cons first _ ih =>
    cases selects with
    | @cons _ p _ ps selects rest =>
      obtain ⟨id, rfl⟩ := first
      have kept : ∀ row ∈ rows.filter p, Q row := fun row hrow =>
        h row (List.mem_of_mem_filter hrow)
      rw [deriveAll, derive, selects facts limit rows h]
      refine (ih rest kept).trans ?_
      rw [List.filter_filter]
      simp only [List.all_cons, Bool.and_comm]

/-! ## The conditions of a join -/

/-- Whether the search takes the candidate for the tuple. -/
def ExistenceTest.satisfiedBy (test : ExistenceTest) (tuple : List Value) (candidate : Value) :
    Bool :=
  test.joiners.holds tuple candidate

theorem ExistenceTest.holds_eq_any (test : ExistenceTest) (facts : List Fact)
    (tuple : List Value) : test.holds facts tuple =
      test.quantifier.holds
        ((factsOf facts test.type).any fun fact => test.satisfiedBy tuple fact.value) :=
  rfl

/-- The row binds the inputs and the target to the parts of its pair. -/
def Row.BindsPair (inputs : List Variable) (target : Variable)
    (pair : Row → List Value × Value) (row : Row) : Prop :=
  row.read inputs = .ok (pair row).1 ∧ row.get target = .ok (pair row).2

namespace Step

variable {inputs : List Variable} {target : Variable} {pair : Row → List Value × Value}

theorem selects_join (index : Nat) (c : KeyComparison) :
    Selects (Row.BindsPair inputs target pair) (.join ⟨inputs, target, index, c⟩)
      fun row => c.holds (pair row).1 (pair row).2 := by
  intro facts limit rows h
  refine Row.keep_eq_filter fun row hrow => ?_
  obtain ⟨read, get⟩ := h row hrow
  rw [JoinTest.passes, read, get]
  rfl

/-- The filter gets the values of the tuple followed by the candidate. -/
theorem selects_filter_pair (filter : JoinPredicates) :
    Selects (Row.BindsPair inputs target pair)
      (.filter (inputs ++ [target]) (filter.overPair inputs.length))
      fun row => filter.holds (pair row).1 (pair row).2 := by
  intro facts limit rows h
  refine Row.keep_eq_filter fun row hrow => ?_
  obtain ⟨read, get⟩ := h row hrow
  have last : row.read [target] = .ok [(pair row).2] := by
    rw [Row.read, get]
    rfl
  have length : (pair row).1.length = inputs.length :=
    (Row.read_eq_ok_iff.1 read).length_eq.symm
  rw [Row.read_append read last]
  exact congrArg Except.ok (filter.overPair_append length [(pair row).2])

end Step

/-- The conditions of a join leave a row just where its rule holds of the pair. -/
theorem Expression.joinSteps_keep {inputs : List Variable} {target : Variable}
    {pair : Row → List Value × Value} {tests : List Condition} {rule : JoinRule}
    (does : List.Forall₂ Condition.Does tests (joinSteps inputs target rule)) (groups : GroupRows)
    (facts : List Fact) (limit : Nat) {rows : List Row}
    (h : ∀ row ∈ rows, row.BindsPair inputs target pair) :
    Condition.deriveAll groups facts limit rows tests =
      .ok (rows.filter fun row => rule.holds (pair row).1 (pair row).2) := by
  have selects : List.Forall₂ (Step.Selects (Row.BindsPair inputs target pair))
      (joinSteps inputs target rule)
      ((rule.comparisons.zipIdx.map fun c row => c.1.holds (pair row).1 (pair row).2) ++
        rule.filter.toList.map fun filter row => filter.holds (pair row).1 (pair row).2) := by
    refine List.rel_append ?_ ?_
    · rw [List.forall₂_map_left_iff, List.forall₂_map_right_iff, List.forall₂_same]
      exact fun c _ => Step.selects_join c.2 c.1
    · rw [List.forall₂_map_left_iff, List.forall₂_map_right_iff, List.forall₂_same]
      exact fun filter _ => Step.selects_filter_pair filter
  rw [Condition.deriveAll_selects does selects groups facts limit h]
  congr 2
  funext row
  rw [List.all_append, List.all_map, List.all_map]
  exact rule.all_parts (pair row).1 (pair row).2

/-! ## What is made of a list of joiners -/

theorem Expression.log_of_ofSlots {slots : List Slot} {last : Slot} {e : Expression}
    (h : ofSlots (slots ++ [last]) = .ok e) : e.log = last.log := by
  have same : e.front ++ [e.last] = slots ++ [last] := ofSlots_eq_ok h
  rw [(inStep_ofSlots h).log]
  exact congrArg Slot.log (List.singleton_inj.1 (List.append_inj' same rfl).2)

/-- The conditions of a join test pairs by the joiners as they are listed. -/
structure Expression.TestPairs (left right : Expression) (joiners : List Joiner)
    (rule : JoinRule) (tests : List Condition) : Prop where
  /-- one test for each comparison, by its number, and one filter if there is a predicate -/
  steps : List.Forall₂ Condition.Does tests
    (((joiners.filterMap (·.keyComparison?)).zipIdx.map fun (comparison, index) =>
      Step.join ⟨left.visible, right.last.bound, index, comparison⟩) ++
    if joiners.any (·.isFiltering) then
      [Step.filter (left.visible ++ [right.last.bound])
        (JoinPredicates.overPair (joiners.filterMap (·.predicate?)) left.visible.length)]
    else [])
  /-- rows stay just where a search by the rule takes the pair -/
  accept : ∀ (visits : Visits) (facts : List Fact) (limit : Nat) (store : GroupStore)
    (rows : List Row) (pair : Row → List Value × Value) (test : ExistenceTest),
    (∀ row ∈ rows, row.BindsPair left.visible right.last.bound pair) → test.joiners = rule →
    (Condition.evaluateAll visits facts limit rows tests).run.run store =
      (.ok (rows.filter fun row => test.satisfiedBy (pair row).1 (pair row).2), store)

/-- The rule says what the list of joiners says. -/
structure Joiner.Lossless (joiners : List Joiner) (rule : JoinRule) : Prop where
  holds : ∀ tuple candidate, rule.holds tuple candidate = joiners.all (·.holds tuple candidate)
  comparisons : rule.comparisons = joiners.filterMap (·.keyComparison?)
  predicates : rule.predicates = joiners.filterMap (·.predicate?)
  present : joiners ≠ [] → rule.indexed.isSome = true ∨ rule.filter.isSome = true
  /-- a join appends its tests to the conditions of the last slots of both sides -/
  join : ∀ left right s e s', (Expression.join left right joiners).Yields s e s' →
    ∃ both next tests, Chain.union [left.last.log, right.last.log] s.nextNode = (both, next) ∧
      e.log.oldestFirst = both.oldestFirst ++ tests ∧ left.TestPairs right joiners rule tests
  /-- an existence check searches by the rule -/
  existence : ∀ e factory quantifier type s e' s',
    (Expression.checkExistence e factory quantifier type joiners).Yields s e' s' →
    ∃ id candidate, e'.log.oldestFirst = e.last.log.oldestFirst ++
      [.step id (.existence ⟨quantifier, candidate, type, e.visible, rule⟩)]

namespace Joiner

variable {joiners : List Joiner} {rule : JoinRule}

theorem merge_comparisons (h : merge joiners = .ok rule) :
    rule.comparisons = joiners.filterMap (·.keyComparison?) := by
  rw [← mergeFrom_eq_foldl h, JoinRule.comparisons_foldl_add]
  rfl

theorem merge_predicates (h : merge joiners = .ok rule) :
    rule.predicates = joiners.filterMap (·.predicate?) := by
  rw [← mergeFrom_eq_foldl h, JoinRule.predicates_foldl_add]
  rfl

/-- The steps of a join, told from the joiners. -/
theorem joinSteps_eq (h : merge joiners = .ok rule) (inputs : List Variable) (target : Variable) :
    Expression.joinSteps inputs target rule =
      ((joiners.filterMap (·.keyComparison?)).zipIdx.map fun (comparison, index) =>
        Step.join ⟨inputs, target, index, comparison⟩) ++
      if joiners.any (·.isFiltering) then
        [Step.filter (inputs ++ [target])
          (JoinPredicates.overPair (joiners.filterMap (·.predicate?)) inputs.length)]
      else [] := by
  have present : rule.filter.isSome = joiners.any (·.isFiltering) := by
    rw [← mergeFrom_eq_foldl h, JoinRule.isSome_filter_foldl_add]
    rfl
  rw [Expression.joinSteps, ← merge_comparisons h, ← merge_predicates h, ← present]
  obtain ⟨indexed, filter⟩ := rule
  cases filter <;> rfl

theorem testPairs_of_join (h : merge joiners = .ok rule) {left right e : Expression}
    {s s' : Supply} (made : (left.join right joiners).Yields s e s') :
    ∃ both next tests, Chain.union [left.last.log, right.last.log] s.nextNode = (both, next) ∧
      e.log.oldestFirst = both.oldestFirst ++ tests ∧
      left.TestPairs right joiners rule tests := by
  obtain ⟨merged, s₁, hrule, rest⟩ := Build.bind_yields.1 made
  obtain ⟨joinable, rfl⟩ := Build.check_yields.1 hrule
  obtain ⟨-, -, -, merges⟩ := Registry.joinable_eq_ok.1 joinable
  have same : merged = rule := Except.ok.inj (merges.symm.trans h)
  obtain ⟨both, s₂, hunion, rest⟩ := Build.bind_yields.1 rest
  obtain ⟨log, s₃, happend, rest⟩ := Build.bind_yields.1 rest
  obtain ⟨hslots, -⟩ := Build.check_yields.1 rest
  obtain ⟨rfl, -⟩ := Prod.mk.inj (Build.modifyGet_yields.1 hunion)
  obtain ⟨tests, conditions, does⟩ := Log.appendSteps_yields happend
  rw [same] at does
  refine ⟨_, _, tests, rfl, ?_, ?_, ?_⟩
  · rw [Expression.log_of_ofSlots hslots, conditions]
  · rwa [joinSteps_eq h left.visible right.last.bound] at does
  · intro visits facts limit store rows pair test bound searches
    rw [Condition.evaluateAll_of_does does,
      Expression.joinSteps_keep does .afresh facts limit bound, ← searches]
    rfl

theorem existence_of_merge (h : merge joiners = .ok rule) {e e' : Expression} {factory : Factory}
    {quantifier : Quantifier} {type : FactType} {s s' : Supply}
    (made : (e.checkExistence factory quantifier type joiners).Yields s e' s') :
    ∃ id candidate, e'.log.oldestFirst = e.last.log.oldestFirst ++
      [.step id (.existence ⟨quantifier, candidate, type, e.visible, rule⟩)] := by
  obtain ⟨merged, s₁, hrule, rest⟩ := Build.bind_yields.1 made
  obtain ⟨merges, rfl⟩ := Build.check_yields.1 hrule
  have same : merged = rule := Except.ok.inj (merges.symm.trans h)
  obtain ⟨candidate, s₂, -, rest⟩ := Build.bind_yields.1 rest
  obtain ⟨log, s₃, happend, rest⟩ := Build.bind_yields.1 rest
  obtain ⟨rfl, -⟩ := Build.pure_yields.1 rest
  obtain ⟨cs, conditions, does⟩ := Log.appendSteps_yields happend
  obtain ⟨c, ⟨id, rfl⟩, rfl⟩ := Condition.Does.of_singleton does
  exact ⟨id, candidate, by rw [← same]; exact conditions⟩

/-- Merging joiners loses none of them: neither its comparison or predicate nor its place. -/
theorem merge_lossless (h : merge joiners = .ok rule) : Lossless joiners rule where
  holds := merge_holds h
  comparisons := merge_comparisons h
  predicates := merge_predicates h
  present some_joiner := by
    have present := JoinRule.isEmpty_of_merge h
    rw [List.isEmpty_eq_false_iff.2 some_joiner, JoinRule.isEmpty, Bool.and_eq_false_iff] at present
    simpa using present
  join _ _ _ _ _ made := testPairs_of_join h made
  existence _ _ _ _ _ _ _ made := existence_of_merge h made

/-- Two comparisons and two predicates that differ in their keys and in what they ask. -/
theorem merge_lossless_window :
    Lossless
      [.comparing .lessThanOrEqual ⟨valueAt 0, id⟩, .comparing .notEqual ⟨valueAt 1, id⟩,
        .filtering fun tuple candidate => valueAt 2 tuple == candidate,
        .filtering fun tuple candidate => valueAt 0 tuple != candidate]
      ⟨some [⟨.lessThanOrEqual, ⟨valueAt 0, id⟩⟩, ⟨.notEqual, ⟨valueAt 1, id⟩⟩],
        some [fun tuple candidate => valueAt 2 tuple == candidate,
          fun tuple candidate => valueAt 0 tuple != candidate]⟩ :=
  merge_lossless rfl

end Joiner

end MatchAlgebra
