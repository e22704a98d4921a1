import MatchAlgebra.Proofs.Existence
import MatchAlgebra.Proofs.JoinerOrder

/-!
# What a join accepts, and what it makes

Two expressions can be joined if the left one has room, the right one has one value, they bind no
variable in common and the joiners are in order.  Otherwise the first of these four that fails is
reported, and nothing has been drawn from the supply (`Refused`).

The variables decide about the conditions as well.  Every condition binds or reads some variable,
and a variable that is read is bound in the same log, so sides that bind no variable in common have
no condition in common.  Then the union of the logs, which would drop a condition that it has seen,
drops none:

    e.log  =  left.log, right.log, one test for each comparison, one filter if there is a predicate
                                                                                (join_verdict)
-/

namespace MatchAlgebra

namespace Expression

/-- No variable of the right side is bound or shown on the left. -/
def Apart (left right : Expression) : Prop :=
  ∀ w ∈ right.log.oldestFirst.flatMap Condition.binds,
    ∀ v ∈ left.visible ++ left.log.oldestFirst.flatMap Condition.binds, v.id ≠ w.id

/-- What a join adds to the conditions of its sides: a test for each comparison of the list, by its
number, and one filter by all predicates if there is a predicate. -/
def listedSteps (inputs : List Variable) (target : Variable) (joiners : List Joiner) : List Step :=
  ((joiners.filterMap (·.keyComparison?)).zipIdx.map fun (comparison, index) =>
    Step.join ⟨inputs, target, index, comparison⟩) ++
  if joiners.any (·.isFiltering) then
    [Step.filter (inputs ++ [target])
      (JoinPredicates.overPair (joiners.filterMap (·.predicate?)) inputs.length)]
  else []

/-- Why two expressions are not joined.  A reason counts only where none before it does. -/
inductive Refused (left right : Expression) (joiners : List Joiner) : PlanError → Prop
  | full (full : 4 ≤ left.degree) :
      Refused left right joiners (.degreeOverflow .join (left.degree + 1))
  | several (room : left.degree < 4) (several : right.degree ≠ 1) :
      Refused left right joiners (.joinOperandDegree right.degree)
  | shared (room : left.degree < 4) (single : right.degree = 1) {v w : Variable}
      (bound : w ∈ right.log.oldestFirst.flatMap Condition.binds)
      (taken : v ∈ left.visible ++ left.log.oldestFirst.flatMap Condition.binds)
      (same : v.id = w.id) : Refused left right joiners (.sharedJoinVariable w.name)
  | disordered (room : left.degree < 4) (single : right.degree = 1) (apart : left.Apart right)
      {error : PlanError} (merges : Joiner.merge joiners = .error error) :
      Refused left right joiners error

/-- What a join makes of its sides. -/
structure Joined (left right : Expression) (joiners : List Joiner) (e : Expression) : Prop where
  /-- the slots of the left side as they were, and one for the variable of the right side -/
  slots : e.slots = left.slots ++ [⟨right.last.bound, e.log⟩]
  /-- the variables of the left side, and the variable of the right side -/
  visible : e.visible = left.visible ++ [right.last.bound]
  /-- the conditions of both sides without exception, and then the tests -/
  conditions : ∃ tests, e.log.oldestFirst =
      left.log.oldestFirst ++ right.log.oldestFirst ++ tests ∧
    List.Forall₂ Condition.Does tests (listedSteps left.visible right.last.bound joiners)

/-- What a join does, whether it succeeds or not. -/
structure JoinVerdict (left right : Expression) (joiners : List Joiner) (s : Supply) : Prop where
  accepts : (left.join right joiners).Succeeds s ↔
    left.degree < 4 ∧ right.degree = 1 ∧ left.Apart right ∧ ∃ rule, Joiner.merge joiners = .ok rule
  refuses : ∀ error s', (left.join right joiners).run.run s = (.error error, s') →
    s' = s ∧ Refused left right joiners error
  joined : ∀ e s', (left.join right joiners).Yields s e s' → Joined left right joiners e

end Expression

/-! ## Variables in common -/

namespace Registry

variable {r : Registry} {t t' : Term} {left right : Expression}

/-- The variable that a side shows is bound in its log, so that only the bound ones need be looked
at. -/
theorem Shapes.mem_binds (h : r.Shapes t right) {w : Variable}
    (hw : w ∈ right.last.bound :: right.log.newestFirst.flatMap Condition.binds) :
    w ∈ right.log.oldestFirst.flatMap Condition.binds := by
  rcases List.mem_cons.1 hw with rfl | hw
  · refine h.layout.visible_bound _ ?_
    rw [h.inStep.visible_eq]
    exact List.mem_append_right _ List.mem_cons_self
  · obtain ⟨c, hc, hw⟩ := List.mem_flatMap.1 hw
    exact List.mem_flatMap.2 ⟨c, Chain.mem_oldestFirst.2 hc, hw⟩

/-- The search for a variable in common finds one that the left side has, too. -/
theorem exists_of_sharedVariable (hl : left.InStep) (hr : right.InStep) {w : Variable}
    (h : left.sharedVariable? right = some w) :
    w ∈ right.last.bound :: right.log.newestFirst.flatMap Condition.binds ∧
      ∃ v ∈ left.visible ++ left.log.oldestFirst.flatMap Condition.binds, v.id = w.id := by
  rw [hl.log, hr.log]
  refine ⟨List.mem_of_find?_eq_some h, ?_⟩
  obtain ⟨v, hv, same⟩ := List.contains_iff_exists_mem_beq.1 (List.find?_some h)
  refine ⟨v, List.mem_append.2 ((List.mem_append.1 hv).imp_right fun hv => ?_),
    (of_decide_eq_true same).symm⟩
  obtain ⟨c, hc, hv⟩ := List.mem_flatMap.1 hv
  exact List.mem_flatMap.2 ⟨c, Chain.mem_oldestFirst.2 hc, hv⟩

/-- The search comes out empty just if no variable is in common. -/
theorem Shapes.sharedVariable_eq_none_iff (hl : left.InStep) (h : r.Shapes t right) :
    left.sharedVariable? right = none ↔ left.Apart right := by
  constructor
  · exact fun none w hw v hv => id_ne_of_sharedVariable hl h.inStep none hv hw
  · intro apart
    cases found : left.sharedVariable? right with
    | none => rfl
    | some w =>
      obtain ⟨hw, v, hv, same⟩ := exists_of_sharedVariable hl h.inStep found
      exact absurd same (apart w (h.mem_binds hw) v hv)

end Registry

/-! ## The verdict -/

namespace Expression

variable {r : Registry} {t t' : Term} {left right e : Expression} {joiners : List Joiner}
  {s s' : Supply} {error : PlanError}

theorem joinable_iff (hl : left.InStep) (hr : r.Shapes t right) :
    (∃ rule, left.joinable right joiners = .ok rule) ↔ left.degree < 4 ∧ right.degree = 1 ∧
      left.Apart right ∧ ∃ rule, Joiner.merge joiners = .ok rule := by
  simp only [Registry.joinable_eq_ok, hr.sharedVariable_eq_none_iff hl, exists_and_left]
  rfl

/-- The checks are made in the order of the reasons. -/
theorem refused_of_joinable (hl : left.InStep) (hr : r.Shapes t right)
    (h : left.joinable right joiners = .error error) : Refused left right joiners error := by
  unfold joinable at h
  by_cases full : maxDegree ≤ left.degree
  · rw [if_pos full] at h
    cases h
    exact .full full
  · rw [if_neg full] at h
    have room : left.degree < 4 := Nat.not_le.1 full
    by_cases single : right.degree = 1
    · rw [if_neg (not_not_intro single)] at h
      cases shared : left.sharedVariable? right with
      | some w =>
        rw [shared] at h
        cases h
        obtain ⟨hw, v, hv, same⟩ := Registry.exists_of_sharedVariable hl hr.inStep shared
        exact .shared room single (hr.mem_binds hw) hv same
      | none =>
        rw [shared] at h
        exact .disordered room single ((hr.sharedVariable_eq_none_iff hl).1 shared) h
    · rw [if_pos single] at h
      cases h
      exact .several room single

theorem succeeds_join_iff :
    (left.join right joiners).Succeeds s ↔ ∃ rule, left.joinable right joiners = .ok rule := by
  constructor
  · rintro ⟨e, s', makes⟩
    obtain ⟨rule, s₁, hrule, -⟩ := Build.bind_yields.1 makes
    exact ⟨rule, (Build.check_yields.1 hrule).1⟩
  · rintro ⟨rule, joinable⟩
    exact succeeds_join joinable s

/-- Only the checks at the beginning of a join can fail. -/
theorem joinable_of_join_error (h : (left.join right joiners).run.run s = (.error error, s')) :
    s' = s ∧ left.joinable right joiners = .error error := by
  cases joinable : left.joinable right joiners with
  | error refusal =>
    rw [join, Build.run_bind, joinable] at h
    cases h
    exact ⟨rfl, rfl⟩
  | ok rule =>
    obtain ⟨e, s'', makes⟩ := succeeds_join joinable s
    cases makes.symm.trans h

theorem slots_of_join (makes : (left.join right joiners).Yields s e s') :
    e.slots = left.slots ++ [⟨right.last.bound, e.log⟩] := by
  obtain ⟨rule, s₁, -, makes⟩ := Build.bind_yields.1 makes
  obtain ⟨both, s₂, -, makes⟩ := Build.bind_yields.1 makes
  obtain ⟨log, s₃, -, makes⟩ := Build.bind_yields.1 makes
  obtain ⟨made, -⟩ := Build.check_yields.1 makes
  rw [log_of_ofSlots made]
  exact ofSlots_eq_ok made

theorem joined_of_join (hl : r.Shapes t left) (hr : r.Shapes t' right)
    (makes : (left.join right joiners).Yields r.supply e s') : Joined left right joiners e := by
  obtain ⟨-, -, -, -, -, visible, rule, tests, joinable, conditions, does⟩ :=
    Registry.reaches_join hl hr makes
  obtain ⟨-, -, -, merges⟩ := Registry.joinable_eq_ok.1 joinable
  rw [Joiner.joinSteps_eq merges] at does
  exact ⟨slots_of_join makes, visible, tests, conditions, does⟩

/-- **A join accepts just the sides that go together, and drops no condition of them.**  This is
so whatever else has been built before, and however much the sides have in common with it. -/
theorem join_verdict {es : List (Term × Expression)} (built : LooselyBuilt s es)
    (left_operand : (t, left) ∈ es) (right_operand : (t', right) ∈ es) (joiners : List Joiner) :
    JoinVerdict left right joiners s := by
  obtain ⟨r, rfl, shapes⟩ := built.exists_registry
  have left_shapes := shapes _ left_operand
  have right_shapes := shapes _ right_operand
  refine ⟨succeeds_join_iff.trans (joinable_iff left_shapes.inStep right_shapes),
    fun error s' failed => ?_,
    fun e s' makes => joined_of_join left_shapes right_shapes makes⟩
  obtain ⟨same, refused⟩ := joinable_of_join_error failed
  exact ⟨same, refused_of_joinable left_shapes.inStep right_shapes refused⟩

/-- Two comparisons and a predicate over filtered facts: the numbers of the tests are those of the
comparisons.  A side cannot be joined with itself. -/
theorem join_verdict_window :
    let small : TuplePredicate := fun tuple => valueAt 0 tuple != .null
    let less : KeyComparison := ⟨.lessThan, valueAt 0, id⟩
    let differs : KeyComparison := ⟨.notEqual, valueAt 0, fun x => .tuple [x]⟩
    let joiners : List Joiner := [less.joiner, differs.joiner, .filtering Sample.present]
    let kept : Condition := .step 3 (.filter [Sample.w] small)
    let left : Expression := Sample.facts
    let right : Expression := .ofSlot ⟨Sample.w, .link Sample.others.log 2 2 kept⟩
    let s : Supply := { Sample.afterOthers with drawn := 3, nextNode := 3 }
    (∃ es t t', LooselyBuilt s es ∧ (t, left) ∈ es ∧ (t', right) ∈ es) ∧
      JoinVerdict left right joiners s ∧
      (∃ e s', (left.join right joiners).Yields s e s' ∧ e.log.oldestFirst =
        [Sample.first, Sample.second, kept, .step 4 (.join ⟨[Sample.v], Sample.w, 0, less⟩),
          .step 5 (.join ⟨[Sample.v], Sample.w, 1, differs⟩),
          .step 6 (.filter [Sample.v, Sample.w]
            (JoinPredicates.overPair [Sample.present] 1))]) ∧
      (left.join left joiners).run.run s = (.error (.sharedJoinVariable Sample.v.name), s) := by
  intro small less differs joiners kept left right s
  have filters : (Sample.others.filter small).Yields Sample.afterOthers right s := rfl
  have built := LooselyBuilt.of_built
    ((Sample.built_facts.forEach Sample.makes_others).filter (.head _) filters)
  exact ⟨⟨_, _, _, built, .tail _ (.tail _ (.head _)), .head _⟩,
    join_verdict built (.tail _ (.tail _ (.head _))) (.head _) joiners, ⟨_, _, rfl, rfl⟩, rfl⟩

end Expression

end MatchAlgebra
