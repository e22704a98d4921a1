import MatchAlgebra.Proofs.Compilation
import MatchAlgebra.Proofs.Hindsight
import MatchAlgebra.Proofs.Verification

/-!
# Existence checks agree with joins

A join with the facts of a type and a search among them go by the same joiners, but not by the same
way: the join lets each comparison stand as a condition of its own and has its filters look at the
whole pair, the search asks one rule of each candidate.  Both come to the candidates of a match, the
facts on which every joiner holds:

    matches of the expression            m₁, …, mₙ
    of the join                          mᵢ followed by x, for each candidate x of mᵢ
    of the search for a fact             the mᵢ that have a candidate
    of the search for no fact            the mᵢ that have none
                                                                    (existence_agrees_with_join)

All four plans start with the same conditions, and what these give does not depend on which of the
plans were evaluated before, nor on what tours (`Session.Told`).
-/

namespace MatchAlgebra

/-! ## Builds that succeed -/

namespace Build

variable {α β : Type} {m : Build α} {f : α → Build β} {s : Supply}

/-- The build does not fail. -/
def Succeeds (m : Build α) (s : Supply) : Prop := ∃ a s', m.Yields s a s'

theorem succeeds_pure (a : α) (s : Supply) : Succeeds (pure a) s := ⟨a, s, rfl⟩

theorem succeeds_modifyGet (draw : Supply → α × Supply) (s : Supply) :
    Succeeds (modifyGet draw) s := ⟨_, _, modifyGet_yields.2 rfl⟩

theorem succeeds_check {r : Except PlanError α} {a : α} (h : r = .ok a) : Succeeds (check r) s :=
  ⟨a, s, check_yields.2 ⟨h, rfl⟩⟩

theorem Succeeds.bind (h : Succeeds m s) (hf : ∀ a s', m.Yields s a s' → Succeeds (f a) s') :
    Succeeds (m >>= f) s := by
  obtain ⟨a, s', ha⟩ := h
  obtain ⟨b, s'', hb⟩ := hf a s' ha
  exact ⟨b, s'', bind_yields.2 ⟨a, s', ha, hb⟩⟩

end Build

theorem Log.succeeds_appendSteps (log : Log) (steps : List Step) (s : Supply) :
    Build.Succeeds (Log.appendSteps log steps) s := by
  induction steps generalizing log s with
  | nil => exact Build.succeeds_pure log s
  | cons step steps ih =>
    refine Build.Succeeds.bind ?_ fun c s' _ => ?_
    · exact (Build.succeeds_modifyGet _ s).bind fun _ s' _ => Build.succeeds_pure _ s'
    · exact (Build.succeeds_modifyGet _ s').bind fun log s'' _ => ih log s''

namespace Expression

theorem exists_ofSlots {slots : List Slot} (last : Slot) (hle : slots.length < maxDegree) :
    ∃ e, ofSlots (slots ++ [last]) = .ok e := by
  have room : (slots ++ [last]).length ≤ maxDegree := by
    rwa [List.length_append]
  rw [ofSlots, List.getLast?_concat]
  exact ⟨_, if_pos room⟩

theorem succeeds_forEach (factory : Factory) (type : FactType) (s : Supply) :
    (forEach factory type).Succeeds s :=
  (Build.succeeds_modifyGet _ s).bind fun _ s' _ =>
    (Log.succeeds_appendSteps _ _ s').bind fun _ s'' _ => Build.succeeds_pure _ s''

theorem succeeds_checkExistence (e : Expression) (factory : Factory) (quantifier : Quantifier)
    (type : FactType) {joiners : List Joiner} {rule : JoinRule}
    (merged : Joiner.merge joiners = .ok rule) (s : Supply) :
    (e.checkExistence factory quantifier type joiners).Succeeds s := by
  refine (Build.succeeds_check merged).bind fun _ s' _ => ?_
  refine (Build.succeeds_modifyGet _ s').bind fun _ s'' _ => ?_
  exact (Log.succeeds_appendSteps _ _ s'').bind fun _ s''' _ => Build.succeeds_pure _ s'''

theorem succeeds_join {left right : Expression} {joiners : List Joiner} {rule : JoinRule}
    (joinable : left.joinable right joiners = .ok rule) (s : Supply) :
    (left.join right joiners).Succeeds s := by
  refine (Build.succeeds_check joinable).bind fun _ s' _ => ?_
  refine (Build.succeeds_modifyGet _ s').bind fun _ s'' _ => ?_
  refine (Log.succeeds_appendSteps _ _ s'').bind fun log s''' _ => ?_
  obtain ⟨room, -⟩ := Registry.joinable_eq_ok.1 joinable
  obtain ⟨e, he⟩ := exists_ofSlots ⟨right.last.bound, log⟩ room
  exact Build.succeeds_check he

end Expression

/-! ## Joins with facts and searches among them -/

namespace Expression

/-- The other expression pairs what this one shows with the facts of a type that fit the rule. -/
def PairedBy (e : Expression) (type : FactType) (rule : JoinRule) (joined : Expression) : Prop :=
  ∃ bound pattern tests, joined.visible = e.visible ++ [bound] ∧
    bound.id ∉ e.visible.map (·.id) ∧
    joined.log.oldestFirst = e.log.oldestFirst ++ pattern :: tests ∧
    pattern.Does (.pattern bound type) ∧
    List.Forall₂ Condition.Does tests (joinSteps e.visible bound rule)

/-- The other expression searches the facts of a type for one that fits the rule. -/
def SearchedBy (e : Expression) (quantifier : Quantifier) (type : FactType) (rule : JoinRule)
    (checked : Expression) : Prop :=
  checked.visible = e.visible ∧ ∃ candidate c,
    checked.log.oldestFirst = e.log.oldestFirst ++ [c] ∧
    c.Does (.existence ⟨quantifier, candidate, type, e.visible, rule⟩)

end Expression

namespace Registry

variable {r : Registry} {t : Term} {e right : Expression}

/-- What binds new variables only shares none. -/
theorem Stands.sharedVariable_eq_none (h : r.Stands t e)
    (new : ∀ w ∈ right.last.bound :: right.last.log.newestFirst.flatMap Condition.binds,
      ¬ r.supply.Used w.id) : e.sharedVariable? right = none := by
  refine List.find?_eq_none.2 fun w hw hcontains => new w hw ?_
  obtain ⟨v, hv, hwv⟩ := List.contains_iff_exists_mem_beq.1 hcontains
  have same : w.id = v.id := of_decide_eq_true hwv
  rw [same]
  rcases List.mem_append.1 hv with hv | hv
  · exact h.used v (h.flat.layout.visible_bound v hv)
  · obtain ⟨c, hc, hv⟩ := List.mem_flatMap.1 hv
    rw [← h.inStep.log] at hc
    exact h.used v (List.mem_flatMap.2 ⟨c, Chain.mem_oldestFirst.2 hc, hv⟩)

variable {joiners : List Joiner} {rule : JoinRule} (merged : Joiner.merge joiners = .ok rule)
  (type : FactType)
include merged

/-- With room for one more value an expression can be joined with the facts of a type. -/
theorem Stands.exists_join (h : r.Stands t e) (room : e.degree < maxDegree) (factory : Factory) :
    ∃ joined s', Build.Yields (do
        let right ← Expression.forEach factory type
        e.join right joiners) r.supply joined s' ∧
      e.PairedBy type rule joined := by
  obtain ⟨right, s₁, makes⟩ := Expression.succeeds_forEach factory type r.supply
  have inStep := Expression.inStep_forEach makes
  obtain ⟨r₁, rfl, before, files, growing, bound, pattern, visible, declared, fresh, does,
    conditions⟩ := reaches_forEach makes
  have right_shapes : r₁.Shapes (.forEach type) right := by
    refine ⟨inStep, files, growing, ?_⟩
    rw [conditions, visible]
    exact .forEach declared does
  have degree : right.degree = 1 := by
    rw [← inStep.length_visible, visible]
    rfl
  have last : right.last.bound = bound := by
    rw [inStep.visible_of_degree degree] at visible
    exact List.head_eq_of_cons_eq visible
  have shared : e.sharedVariable? right = none := by
    refine h.sharedVariable_eq_none fun w hw => ?_
    have hbound : w = bound := by
      rcases List.mem_cons.1 hw with rfl | hw
      · exact last
      · obtain ⟨c, hc, hw⟩ := List.mem_flatMap.1 hw
        rw [← Chain.mem_oldestFirst, ← inStep.log, conditions, List.mem_singleton] at hc
        obtain ⟨id, rfl⟩ := does
        rw [hc] at hw
        exact List.mem_singleton.1 hw
    exact hbound ▸ fresh.unused bound List.mem_cons_self
  have joinable := joinable_eq_ok.2 ⟨room, degree, shared, merged⟩
  obtain ⟨joined, s₂, joins⟩ := Expression.succeeds_join joinable r₁.supply
  obtain ⟨r₂, rfl, -, -, -, joined_visible, rule', tests, joinable', joined_conditions, tests_do⟩ :=
    reaches_join (h.mono before).shapes right_shapes joins
  cases joinable'.symm.trans joinable
  rw [last] at joined_visible tests_do
  refine ⟨joined, r₂.supply, Build.bind_yields.2 ⟨right, r₁.supply, makes, joins⟩, bound, pattern,
    tests, joined_visible, ?_, ?_, does, tests_do⟩
  · intro hmem
    obtain ⟨v, hv, heq⟩ := List.mem_map.1 hmem
    exact fresh.unused bound List.mem_cons_self
      (heq ▸ h.used v (h.flat.layout.visible_bound v hv))
  · rw [joined_conditions, conditions, List.append_assoc, List.singleton_append]

/-- A search among the facts of a type can be made of any expression. -/
theorem Stands.exists_checkExistence (h : r.Stands t e) (factory : Factory)
    (quantifier : Quantifier) :
    ∃ checked s', (e.checkExistence factory quantifier type joiners).Yields r.supply checked s' ∧
      e.SearchedBy quantifier type rule checked := by
  obtain ⟨checked, s', makes⟩ :=
    e.succeeds_checkExistence factory quantifier type merged r.supply
  obtain ⟨rule', candidate, middle, merged', hcreate, requires⟩ := existence_yields makes
  cases merged'.symm.trans merged
  obtain ⟨r₁, rfl, before, -⟩ := reaches_create hcreate
  obtain ⟨r₂, rfl, -, -, -, visible, c, does, conditions⟩ :=
    reaches_require (h.mono before).shapes requires
  exact ⟨checked, r₂.supply, makes, visible, candidate, c, conditions, does⟩

end Registry

/-! ## Matches and candidates -/

/-- The values of the facts of a type, in their order, on which every joiner holds. -/
def candidates (facts : List Fact) (type : FactType) (joiners : List Joiner)
    (tuple : List Value) : List Value :=
  ((factsOf facts type).map (·.value)).filter fun x => joiners.all (·.holds tuple x)

/-- The match as another weigher weighs it. -/
def Match.weighed (w : Weigher) (m : Match) : Match := { m with weight := w.weigh m.values }

theorem ExistenceTest.holds_eq {test : ExistenceTest} {joiners : List Joiner}
    (merged : Joiner.merge joiners = .ok test.joiners) (facts : List Fact) (tuple : List Value) :
    test.holds facts tuple =
      test.quantifier.holds !(candidates facts test.type joiners tuple).isEmpty := by
  rw [holds, candidates]
  congr 1
  rw [Bool.eq_iff_iff]
  simp [Joiner.merge_holds merged]

namespace Plan

variable {plan : Plan} {row : Row} {m : Match}

theorem matchOf_eq_ok_iff : plan.matchOf row = .ok m ↔ row.read plan.visible = .ok m.values ∧
    m.weight = plan.weigher.weigh m.values ∧ m.facts = HandleSet.ascending row.facts := by
  constructor
  · intro h
    obtain ⟨values, hvalues, h⟩ := bind_eq_ok.1 h
    cases h
    exact ⟨hvalues, rfl, rfl⟩
  · rintro ⟨hvalues, hweight, hfacts⟩
    rw [matchOf, hvalues]
    show Except.ok (Match.mk m.values (plan.weigher.weigh m.values) _) = .ok m
    rw [← hweight, ← hfacts]

/-- A plan that shows the same variables finds the same values and facts in a row. -/
theorem matchOf_weighed (plan : Plan) {other : Plan} (visible : other.visible = plan.visible)
    (h : plan.matchOf row = .ok m) : other.matchOf row = .ok (m.weighed other.weigher) := by
  obtain ⟨hvalues, -, hfacts⟩ := matchOf_eq_ok_iff.1 h
  exact matchOf_eq_ok_iff.2 ⟨visible ▸ hvalues, rfl, hfacts⟩

end Plan

section
variable {groups : GroupRows} {facts : List Fact} {type : FactType} {joiners : List Joiner}
  {rule : JoinRule} {e e' : Expression} {w : Weigher} {rows : List Row} {ms : List Match}
  (merged : Joiner.merge joiners = .ok rule)
  (hrows : Condition.deriveAll groups facts 0 [Row.empty] e.log.oldestFirst = .ok rows)
  (hms : (e.toPlan w).matchesOf rows = .ok ms) (w' : Weigher)
include merged hrows hms

/-- A search keeps the matches for which it comes out as wanted. -/
theorem Expression.derive_existence {quantifier : Quantifier}
    (searched : e.SearchedBy quantifier type rule e') :
    (e'.toPlan w').derive groups facts 0 = .ok ((ms.filter fun m =>
      quantifier.holds !(candidates facts type joiners m.values).isEmpty).map
        (·.weighed w')) := by
  obtain ⟨visible, candidate, c, conditions, does⟩ := searched
  let test : ExistenceTest := ⟨quantifier, candidate, type, e.visible, rule⟩
  let wanted := fun m : Match =>
    quantifier.holds !(candidates facts type joiners m.values).isEmpty
  have passes : ∀ row m, (e.toPlan w).matchOf row = .ok m →
      test.passes facts row = .ok (wanted m) := by
    intro row m hm
    have read : row.read e.visible = .ok m.values := (Plan.matchOf_eq_ok_iff.1 hm).1
    rw [ExistenceTest.passes, read]
    exact congrArg Except.ok (ExistenceTest.holds_eq merged facts m.values)
  obtain ⟨out, hout, hstep⟩ := Row.keep_in_step (Plan.matchesOf_eq_ok_iff.1 hms) passes
  have all_rows : Condition.deriveAll groups facts 0 [Row.empty] (e'.toPlan w').conditions =
      .ok out := by
    show Condition.deriveAll groups facts 0 [Row.empty] e'.log.oldestFirst = _
    rw [conditions, Condition.deriveAll_append, hrows]
    obtain ⟨id, rfl⟩ := does
    show (Row.keep (test.passes facts) rows >>= _) = _
    rw [hout]
    rfl
  rw [Plan.derive, all_rows]
  refine Plan.matchesOf_eq_ok_iff.2 ((List.forall₂_map_right_iff).2 (hstep.imp fun row m hm => ?_))
  exact (e.toPlan w).matchOf_weighed visible hm

/-- A join pairs each match with its candidates. -/
theorem Expression.derive_join (paired : e.PairedBy type rule e') :
    ∃ js, (e'.toPlan w').derive groups facts 0 = .ok js ∧ js.map (·.values) =
      ms.flatMap fun m => (candidates facts type joiners m.values).map (m.values ++ [·]) := by
  obtain ⟨bound, pattern, tests, visible, fresh, conditions, binds, does⟩ := paired
  have pairs : List.Forall₂ (Row.ReadsPair e.visible bound)
      (rows.flatMap fun row => (factsOf facts type).map (row.bindFact bound))
      (ms.flatMap fun m => (factsOf facts type).map fun fact => (m.values, [fact.value])) := by
    refine List.rel_flatMap (Plan.matchesOf_eq_ok_iff.1 hms) fun row m hm => ?_
    rw [List.forall₂_map_left_iff, List.forall₂_map_right_iff, List.forall₂_same]
    intro fact _
    obtain ⟨hvalues, -⟩ := Plan.matchOf_eq_ok_iff.1 hm
    have bindings : ∀ vs, (row.bindFact bound fact).read vs = (row.bind bound fact.value).read vs :=
      Row.read_eq_of_values rfl
    refine ⟨?_, ?_⟩
    · rw [bindings, Row.read_bind_of_not_mem fresh]
      exact hvalues
    · rw [bindings, Row.read, Row.get_bind, if_pos rfl]
      rfl
  obtain ⟨ps, keeps, holds⟩ := Expression.keeps_joinSteps facts e.visible bound rule
  obtain ⟨out, hout, hstep⟩ := Condition.deriveAll_keeps groups does keeps pairs
  have all_rows : Condition.deriveAll groups facts 0 [Row.empty] (e'.toPlan w').conditions =
      .ok out := by
    show Condition.deriveAll groups facts 0 [Row.empty] e'.log.oldestFirst = _
    rw [conditions, Condition.deriveAll_append, hrows]
    obtain ⟨id, rfl⟩ := binds
    show Condition.deriveAll groups facts 0 (rows.flatMap _) tests = _
    exact hout
  have read : ∀ row z, Row.ReadsPair e.visible bound row z →
      row.read (e'.toPlan w').visible = .ok (z.1 ++ z.2) := by
    intro row z hz
    show row.read e'.visible = _
    rw [visible]
    exact Row.read_append hz.1 hz.2
  obtain ⟨js, hjs, hvalues⟩ := (e'.toPlan w').matchesOf_in_step
    (List.forall₂_map_right_iff.2 (hstep.imp read))
  refine ⟨js, ?_, ?_⟩
  · rw [Plan.derive, all_rows]
    exact hjs
  · have values := List.forall₂_map_left_iff.2 (hvalues.imp fun m z hz => hz.1)
    rw [List.forall₂_eq_eq_eq] at values
    rw [values, List.filter_flatMap, List.map_flatMap]
    congr 1
    funext m
    rw [candidates, List.filter_map, List.filter_map, List.map_map, List.map_map]
    refine congrArg _ (List.filter_congr fun fact _ => ?_)
    exact (holds (m.values, [fact.value])).trans (Joiner.merge_holds merged _ _)

end

/-! ## Agreement -/

/-- The matches of a plan, of its join with the facts of a type, and of the searches for a fact and
for no fact among them. -/
structure Session.Agree (session : Session)
    (answers : Plan → Except SessionError (List Match) → Prop) (type : FactType)
    (joiners : List Joiner) (base joined found missing : Plan) (ms : List Match) : Prop where
  base : answers base (.ok ms)
  joined : ∃ js, answers joined (.ok js) ∧ js.map (·.values) = ms.flatMap fun m =>
    (candidates session.facts type joiners m.values).map (m.values ++ [·])
  found : answers found
    (.ok ((ms.filter fun m => !(candidates session.facts type joiners m.values).isEmpty).map
      (·.weighed found.weigher)))
  missing : answers missing
    (.ok ((ms.filter fun m => (candidates session.facts type joiners m.values).isEmpty).map
      (·.weighed missing.weigher)))
  parts : ((ms.filter fun m => !(candidates session.facts type joiners m.values).isEmpty) ++
    ms.filter fun m => (candidates session.facts type joiners m.values).isEmpty).Perm ms

/-- Answers that follow from the same groups agree. -/
theorem Session.Told.agree {session : Session} {pool : List Plan}
    {answers : Plan → Except SessionError (List Match) → Prop} (told : session.Told pool answers)
    {e joined found missing : Expression} {type : FactType} {joiners : List Joiner}
    {rule : JoinRule} (merged : Joiner.merge joiners = .ok rule)
    (paired : e.PairedBy type rule joined) (searched : e.SearchedBy .found type rule found)
    (searched' : e.SearchedBy .notFound type rule missing) {w w₁ w₂ w₃ : Weigher}
    (known : [e.toPlan w, joined.toPlan w₁, found.toPlan w₂, missing.toPlan w₃] ⊆ pool)
    (verified : ∀ plan ∈ [e.toPlan w, joined.toPlan w₁, found.toPlan w₂, missing.toPlan w₃],
      plan.verify = .ok ()) :
    ∃ ms, session.Agree answers type joiners (e.toPlan w) (joined.toPlan w₁) (found.toPlan w₂)
      (missing.toPlan w₃) ms := by
  obtain ⟨groups, -, told⟩ := told
  -- what follows from the groups is the answer
  have answer : ∀ plan ∈ [e.toPlan w, joined.toPlan w₁, found.toPlan w₂, missing.toPlan w₃],
      ∀ ms, plan.derive groups session.facts 0 = .ok ms → answers plan (.ok ms) := by
    intro plan hplan ms hms
    obtain ⟨ms', hms', answered⟩ := told plan (known hplan) (verified plan hplan)
    cases hms.symm.trans hms'
    exact answered
  simp only [List.forall_mem_cons, List.not_mem_nil, false_implies, implies_true,
    and_true] at answer
  obtain ⟨base, pairs, some_fact, no_fact⟩ := answer
  obtain ⟨ms, hms, -⟩ := told _ (known List.mem_cons_self) (verified _ List.mem_cons_self)
  obtain ⟨rows, hrows, hmatches⟩ := bind_eq_ok.1 hms
  obtain ⟨js, hjs, values⟩ := Expression.derive_join merged hrows hmatches w₁ paired
  have kept := Expression.derive_existence merged hrows hmatches w₂ searched
  have dropped := Expression.derive_existence merged hrows hmatches w₃ searched'
  simp only [Quantifier.holds, Bool.not_not] at kept dropped
  have parted := List.filter_append_perm
    (fun m : Match => !(candidates session.facts type joiners m.values).isEmpty) ms
  simp only [Bool.not_not] at parted
  exact ⟨ms,
    { base := base ms hms
      joined := ⟨js, pairs js hjs, values⟩
      found := some_fact _ kept
      missing := no_fact _ dropped
      parts := parted }⟩

/-- **Existence checks agree with joins.**  An expression with room for one more value can be joined
with the facts of a type, and they can be searched.  Whatever a session without limit was asked
before, in whatever order it evaluates plans and on whatever tours, the matches of the join are
those of the expression, each with its candidates in the order of their handles, and the searches
part the matches of the expression by whether they have a candidate.  On the same tours these are
always the same matches; otherwise they are those of one run of evaluations. -/
theorem Session.existence_agrees_with_join {s₁ s₂ s₃ : Supply}
    {es₁ es₂ es₃ : List (Term × Expression)} (built₁ : Built s₁ es₁) (built₂ : Built s₂ es₂)
    (built₃ : Built s₃ es₃) {t : Term} {e : Expression} (operand₁ : (t, e) ∈ es₁)
    (operand₂ : (t, e) ∈ es₂) (operand₃ : (t, e) ∈ es₃) (degree : e.degree ≤ 3)
    {joiners : List Joiner} {rule : JoinRule} (merged : Joiner.merge joiners = .ok rule)
    (type : FactType) (factory₁ factory₂ factory₃ : Factory) :
    ∃ joined found missing s₁' s₂' s₃',
      Build.Yields (do
        let right ← Expression.forEach factory₁ type
        e.join right joiners) s₁ joined s₁' ∧
      (e.checkExistence factory₂ .found type joiners).Yields s₂ found s₂' ∧
      (e.checkExistence factory₃ .notFound type joiners).Yields s₃ missing s₃' ∧
      ∀ (history : List Request) (pool : List Plan) (w w₁ w₂ w₃ : Weigher),
        Condition.Identified
          (history.flatMap Request.conditions ++ pool.flatMap (·.conditions)) →
        [e.toPlan w, joined.toPlan w₁, found.toPlan w₂, missing.toPlan w₃] ⊆ pool →
        let session := (start 0).run history
        session.facts.Pairwise (fun a b => a.handle < b.handle) ∧
          (∀ visits, ∃ ms, session.Agree (session.AnswersOn visits pool) type joiners
            (e.toPlan w) (joined.toPlan w₁) (found.toPlan w₂) (missing.toPlan w₃) ms) ∧
          ∀ evaluations : List (Plan × Visits), evaluations.map (·.1) ⊆ pool →
            ∃ ms, session.Agree (session.AnswersIn evaluations) type joiners
              (e.toPlan w) (joined.toPlan w₁) (found.toPlan w₂) (missing.toPlan w₃) ms := by
  obtain ⟨r₁, rfl, stands₁⟩ := built₁.exists_registry
  obtain ⟨r₂, rfl, stands₂⟩ := built₂.exists_registry
  obtain ⟨r₃, rfl, stands₃⟩ := built₃.exists_registry
  obtain ⟨joined, s₁', joins, paired⟩ :=
    (stands₁ _ operand₁).exists_join merged type (Nat.lt_succ_of_le degree) factory₁
  obtain ⟨found, s₂', finds, searched⟩ :=
    (stands₂ _ operand₂).exists_checkExistence merged type factory₂ .found
  obtain ⟨missing, s₃', misses, searched'⟩ :=
    (stands₃ _ operand₃).exists_checkExistence merged type factory₃ .notFound
  refine ⟨joined, found, missing, s₁', s₂', s₃', joins, finds, misses, ?_⟩
  intro history pool w w₁ w₂ w₃ identified known session
  have verified : ∀ plan ∈ [e.toPlan w, joined.toPlan w₁, found.toPlan w₂, missing.toPlan w₃],
      plan.verify = .ok () := by
    obtain ⟨right, middle, makes, joins⟩ := Build.bind_yields.1 joins
    have joined_built := (built₁.forEach makes).join (.tail _ operand₁) (.head _) joins
    simp only [List.forall_mem_cons, List.not_mem_nil, false_implies, implies_true, and_true]
    exact ⟨(LooselyBuilt.of_built built₁).verify operand₁ w,
      (LooselyBuilt.of_built joined_built).verify (.head _) w₁,
      (LooselyBuilt.of_built (built₂.existence operand₂ finds)).verify (.head _) w₂,
      (LooselyBuilt.of_built (built₃.existence operand₃ misses)).verify (.head _) w₃⟩
  exact ⟨((ordered_start 0).run history).facts,
    fun visits => (told_on identified visits).agree merged paired searched searched' known verified,
    fun evaluations asked =>
      (told_in identified asked).agree merged paired searched searched' known verified⟩

/-- The values of one type, each once, against the facts of another that are greater and not
null. -/
theorem Session.existence_agrees_with_join_grouped :
    let other : FactType := Sample.right
    let rule : JoinRule := ⟨some [⟨.lessThan, ⟨valueAt 0, id⟩⟩], some [Sample.present]⟩
    let candidate₁ : Variable := Sample.numbered "toExist" 4 (.fact other)
    let candidate₂ : Variable := Sample.numbered "toExist" 5 (.fact other)
    let some_x : Condition := .step 6 (.existence ⟨.found, candidate₁, other, [Sample.k], rule⟩)
    let no_x : Condition := .step 7 (.existence ⟨.notFound, candidate₂, other, [Sample.k], rule⟩)
    let e : Expression := Sample.values
    let found : Expression := .ofSlot ⟨Sample.k, .link e.log 6 2 some_x⟩
    let missing : Expression := .ofSlot ⟨Sample.k, .link e.log 7 2 no_x⟩
    let pool : List Plan :=
      [e.toPlan .unit, Sample.rises.toPlan .unit, found.toPlan .unit, missing.toPlan .unit]
    let history : List Request := [.insert Sample.left (.int 1), .insert other (.int 3),
      .evaluate (found.toPlan .unit) .descending, .insert Sample.left (.decimal ⟨10, 1⟩),
      .insert other .null, .update 1 (.int 5)]
    let session := (start 0).run history
    (∃ s es, Built s es ∧ (Sample.grouping, e) ∈ es) ∧ e.degree ≤ 3 ∧
      Joiner.merge Sample.joiners = .ok rule ∧
      Condition.Identified (history.flatMap Request.conditions ++ pool.flatMap (·.conditions)) ∧
      session.facts.Pairwise (fun a b => a.handle < b.handle) ∧
      (∀ visits, ∃ ms, session.Agree (session.AnswersOn visits pool) other Sample.joiners
        (e.toPlan .unit) (Sample.rises.toPlan .unit) (found.toPlan .unit) (missing.toPlan .unit)
        ms) ∧
      ∀ evaluations : List (Plan × Visits), evaluations.map (·.1) ⊆ pool →
        ∃ ms, session.Agree (session.AnswersIn evaluations) other Sample.joiners (e.toPlan .unit)
          (Sample.rises.toPlan .unit) (found.toPlan .unit) (missing.toPlan .unit) ms := by
  intro other rule candidate₁ candidate₂ some_x no_x e found missing pool history session
  let afterFound : Supply :=
    { created := fun scope => if scope = 1 then 4 else Sample.afterRises.created scope
      drawn := 6
      nextNode := 7 }
  have makes_found : (e.checkExistence ⟨1⟩ .found other Sample.joiners).Yields Sample.afterRises
      found afterFound := rfl
  obtain ⟨s, makes_missing⟩ : ∃ s, (e.checkExistence ⟨1⟩ .notFound other Sample.joiners).Yields
      afterFound missing s := ⟨_, rfl⟩
  have built := Sample.built_rises.existence (.tail _ (.tail _ (.head _))) makes_found
  have degree : e.degree ≤ 3 := by decide
  have merged : Joiner.merge Sample.joiners = .ok rule := rfl
  have identified :
      Condition.Identified (history.flatMap Request.conditions ++ pool.flatMap (·.conditions)) := by
    refine .of_subset [Sample.first, Sample.group, Sample.third, Sample.less, Sample.kept, some_x,
      no_x] ?_ ?_
    · show [Sample.group, Sample.first, some_x, Sample.group, Sample.first, Sample.group,
        Sample.first, Sample.third, Sample.less, Sample.kept, Sample.group, Sample.first, some_x,
        Sample.group, Sample.first, no_x] ⊆ _
      simp
    · show [1, 2, 3, 4, 5, 6, 7].Nodup
      decide
  obtain ⟨joined', found', missing', s₃', s₄', s₅', joins, finds, misses, agree⟩ :=
    existence_agrees_with_join Sample.built_values Sample.built_rises built (.head _)
      (.tail _ (.tail _ (.head _))) (.tail _ (.tail _ (.tail _ (.head _)))) degree merged other
      ⟨1⟩ ⟨1⟩ ⟨1⟩
  cases joins.symm.trans (Build.bind_yields.2 ⟨_, _, Sample.makes_rivals, Sample.makes_rises⟩)
  cases finds.symm.trans makes_found
  cases misses.symm.trans makes_missing
  exact ⟨⟨_, _, Sample.built_values, .head _⟩, degree, merged, identified,
    agree history pool .unit .unit .unit .unit identified (List.Subset.refl _)⟩

end MatchAlgebra
