import MatchAlgebra.Proofs.History

/-!
# Evaluating again

While the facts stay as they are and the tours too, it does not matter which plans were evaluated in
between.  What conditions will make of rows can be foreseen from the partitions that were kept at
the start, by bringing those of each grouping up to date without keeping them
(`GroupRows.renewed`):

    the store is ahead of σ  →
      evaluateAll visits rows cs on the store  =  deriveAll (.renewed visits σ) rows cs
                                                                    (evaluateAll_eq_renewed)

A store is ahead of another if all that happened to the partitions of a grouping is that they were
brought up to date with the same facts.  Doing so once more changes nothing, on whatever tours
(`Partitions.reconcile_reconcile`).

The equation is of values with their spelling, and nothing is asked of the functions of a plan.
-/

namespace MatchAlgebra

/-! ## Partitions that are up to date -/

namespace Change

/-- A change is about its own tuple. -/
theorem exists_concerns (c : Change) : ∃ key source, c.concerns key source = true := by
  cases c with
  | retract key source => exact ⟨key, source, by simp [concerns]⟩
  | insert key source => exact ⟨key, source, by simp [concerns]⟩

end Change

namespace Partitions

/-- Where each tuple has been fed as often as it is wanted nothing is to be changed. -/
theorem changes_eq_nil {ps : Partitions} {target : GroupInputs}
    (h : ∀ key source, ps.copies key source = wanted target key source) (tours : Tours) :
    ps.changes tours target = [] := by
  rw [List.eq_nil_iff_forall_not_mem]
  intro c hc
  obtain ⟨key, source, concerns⟩ := c.exists_concerns
  have none_left : (ps.changes tours target).countP (·.concerns key source) = 0 := by
    rw [changes, List.countP_append, countP_retractions, countP_insertions, h]
    omega
  exact List.countP_eq_zero.1 none_left c hc concerns

/-- Partitions that are up to date stay as they are. -/
theorem reconcile_eq_self {ps : Partitions} {target : GroupInputs}
    (h : ∀ key source, ps.copies key source = wanted target key source)
    (collectors : List Collector) (tours : Tours) : reconcile collectors tours ps target = ps := by
  rw [reconcile, changes_eq_nil h]
  rfl

theorem reconcile_reconcile (collectors : List Collector) (tours tours' : Tours) (ps : Partitions)
    (target : GroupInputs) :
    reconcile collectors tours' (reconcile collectors tours ps target) target =
      reconcile collectors tours ps target :=
  reconcile_eq_self (copies_reconcile collectors tours ps) collectors tours'

end Partitions

/-! ## What will be found -/

/-- Groups as they are when the partitions in the store are brought up to date. -/
def GroupRows.renewed (visits : Visits) (store : GroupStore) : GroupRows :=
  fun id grouping keyed => ((grouping.regroup (visits id) id keyed).run store).1

/-! ## Stores that are ahead -/

/-- The store comes from the earlier one by bringing partitions of the groupings among the
conditions up to date with the facts.  -/
def GroupStore.Ahead (earlier : GroupStore) (visits : Visits) (facts : List Fact) (limit : Nat)
    (cs : List Condition) (store : GroupStore) : Prop :=
  ∀ id, store.getD id ∅ = earlier.getD id ∅ ∨
    ∃ grouping input keyed, .group id grouping input ∈ Condition.partsAll cs ∧
      Condition.deriveAll (.renewed visits earlier) facts limit [Row.empty] input >>=
        grouping.keyedAll = .ok keyed ∧
      store.getD id ∅ = Partitions.reconcile grouping.collectors (visits id) (earlier.getD id ∅)
        (groupInputs keyed)

namespace GroupStore.Ahead

variable {earlier store : GroupStore} {visits : Visits} {facts : List Fact} {limit : Nat}
  {pool : List Condition} {id : Nat} {grouping : Grouping} {input : List Condition}
  {keyed : List KeyedSource}

theorem refl (store : GroupStore) : Ahead store visits facts limit pool store := fun _ => .inl rfl

section
variable (identified : Condition.Identified pool)
  (h : Ahead earlier visits facts limit pool store)
  (mem : .group id grouping input ∈ Condition.partsAll pool)
  (hkeyed : Condition.deriveAll (.renewed visits earlier) facts limit [Row.empty] input >>=
    grouping.keyedAll = .ok keyed)
include identified h mem hkeyed

/-- Bringing partitions up to date gives the same whether or not that was done before. -/
theorem reconcile_eq :
    Partitions.reconcile grouping.collectors (visits id) (store.getD id ∅) (groupInputs keyed) =
      Partitions.reconcile grouping.collectors (visits id) (earlier.getD id ∅)
        (groupInputs keyed) := by
  rcases h id with same | ⟨grouping', input', keyed', mem', hkeyed', reconciled⟩
  · rw [same]
  · cases identified _ mem' _ mem rfl
    cases hkeyed'.symm.trans hkeyed
    rw [reconciled, Partitions.reconcile_reconcile]

theorem run_regroup_fst : ((grouping.regroup (visits id) id keyed).run store).1 =
    GroupRows.renewed visits earlier id grouping keyed := by
  have same := reconcile_eq identified h mem hkeyed
  show (Partitions.reconcile _ _ (store.getD id ∅) _).toList.map _ =
    (Partitions.reconcile _ _ (earlier.getD id ∅) _).toList.map _
  rw [same]

theorem regroup : Ahead earlier visits facts limit pool
    ((grouping.regroup (visits id) id keyed).run store).2 := by
  have same := reconcile_eq identified h mem hkeyed
  intro id'
  show (store.insert id _).getD id' ∅ = _ ∨ ∃ _ _ _, _ ∧ _ ∧ (store.insert id _).getD id' ∅ = _
  rw [Std.TreeMap.getD_insert]
  split
  · next heq =>
    cases Nat.compare_eq_eq.1 heq
    exact .inr ⟨grouping, input, keyed, mem, hkeyed, same⟩
  · exact h id'

end

end GroupStore.Ahead

/-! ## Evaluation finds it -/

/-- What follows equal results with equal continuations is equal. -/
theorem Evaluation.Ensures.bind_eq {good : GroupStore → Prop} {α β : Type} {m : Evaluation α}
    {f : α → Evaluation β} {x : Except SessionError α} {g : α → Except SessionError β}
    (hm : Ensures good m (· = x)) (hf : ∀ a, x = .ok a → Ensures good (f a) (· = g a)) :
    Ensures good (m >>= f) (· = x >>= g) := by
  refine hm.bind (fun a ha => ?_) fun e he => ?_
  · cases ha
    exact hf a rfl
  · cases he
    rfl

namespace Condition

variable {earlier : GroupStore} {visits : Visits} {pool : List Condition}

mutual

theorem evaluate_eq_renewed (facts : List Fact) (limit : Nat) (identified : Identified pool)
    (rows : List Row) : ∀ c : Condition, (∀ d ∈ c.parts, d ∈ partsAll pool) →
      Evaluation.Ensures (GroupStore.Ahead earlier visits facts limit pool)
        (c.evaluate visits facts limit rows)
        (· = c.derive (.renewed visits earlier) facts limit rows)
  | .step _ s, _ => .ofExcept rfl
  | .group id grouping input, h => by
    obtain ⟨mem, hinput⟩ := forall_parts_group.1 h
    refine (evaluateAll_eq_renewed facts limit identified _ input hinput).bind_eq ?_
    intro inner hinner
    refine Evaluation.Ensures.bind_eq (.ofExcept rfl) fun keyed hkeyed => ?_
    have told : deriveAll (.renewed visits earlier) facts limit [Row.empty] input >>=
        grouping.keyedAll = .ok keyed := by
      rw [hinner]
      exact hkeyed
    refine Evaluation.Ensures.bind_eq
      (x := pure (GroupRows.renewed visits earlier id grouping keyed))
      (g := fun grouped => Row.cross limit rows grouped Row.merge)
      (.lift fun store ahead => ⟨congrArg Except.ok ?_, ?_⟩) fun grouped hgrouped => ?_
    · exact ahead.run_regroup_fst identified mem told
    · exact ahead.regroup identified mem told
    · cases hgrouped
      exact .ofExcept rfl

/-- **Evaluation finds what could be foreseen.**  On a store that is ahead of another conditions
give the rows, or the error, that follow from the other. -/
theorem evaluateAll_eq_renewed (facts : List Fact) (limit : Nat) (identified : Identified pool)
    (rows : List Row) : ∀ cs : List Condition, (∀ d ∈ partsAll cs, d ∈ partsAll pool) →
      Evaluation.Ensures (GroupStore.Ahead earlier visits facts limit pool)
        (evaluateAll visits facts limit rows cs)
        (· = deriveAll (.renewed visits earlier) facts limit rows cs)
  | [], _ => .ofExcept rfl
  | c :: cs, h => by
    obtain ⟨hc, hcs⟩ := forall_partsAll_cons.1 h
    exact (evaluate_eq_renewed facts limit identified rows c hc).bind_eq fun rows _ =>
      evaluateAll_eq_renewed facts limit identified rows cs hcs

end

end Condition

theorem Plan.evaluate_eq_renewed {earlier : GroupStore} {visits : Visits} {pool : List Condition}
    {plan : Plan} (facts : List Fact) (limit : Nat) (identified : Condition.Identified pool)
    (h : ∀ d ∈ Condition.partsAll plan.conditions, d ∈ Condition.partsAll pool) :
    Evaluation.Ensures (GroupStore.Ahead earlier visits facts limit pool)
      (plan.evaluate visits facts limit) (· = plan.derive (.renewed visits earlier) facts limit) :=
  (Condition.evaluateAll_eq_renewed facts limit identified _ _ h).bind_eq fun _ _ => .ofExcept rfl

/-! ## Evaluations one after the other -/

namespace Session

variable {session later : Session} {visits : Visits} {pool : List Condition}

/-- Since the earlier session only plans with conditions of the pool have been evaluated, all on the
same tours. -/
structure OnlyEvaluated (session : Session) (visits : Visits) (pool : List Condition)
    (later : Session) : Prop where
  facts : later.facts = session.facts
  maxBindings : later.maxBindings = session.maxBindings
  ahead : GroupStore.Ahead session.groups visits session.facts session.maxBindings pool
    later.groups

theorem OnlyEvaluated.evaluate (h : session.OnlyEvaluated visits pool later)
    (identified : Condition.Identified pool) {plan : Plan}
    (hplan : ∀ d ∈ Condition.partsAll plan.conditions, d ∈ Condition.partsAll pool) :
    (later.evaluate plan visits).1 =
        plan.derive (.renewed visits session.groups) session.facts session.maxBindings ∧
      session.OnlyEvaluated visits pool (later.perform (.evaluate plan visits)) := by
  obtain ⟨answer, ahead⟩ :=
    Plan.evaluate_eq_renewed session.facts session.maxBindings identified hplan _ h.ahead
  have evaluated : (later.evaluate plan visits).1 =
      ((plan.evaluate visits later.facts later.maxBindings).run.run later.groups).1 := rfl
  rw [h.facts, h.maxBindings] at evaluated
  refine ⟨evaluated.trans answer, h.facts, h.maxBindings, ?_⟩
  show GroupStore.Ahead _ _ _ _ _
    ((plan.evaluate visits later.facts later.maxBindings).run.run later.groups).2
  rwa [h.facts, h.maxBindings]

/-- The session after evaluations, each on tours of its own. -/
def runAll (session : Session) (evaluations : List (Plan × Visits)) : Session :=
  session.run (evaluations.map fun e => .evaluate e.1 e.2)

/-- What a session answers to a plan after other evaluations. -/
def answerAfter (session : Session) (evaluations : List (Plan × Visits)) (plan : Plan)
    (visits : Visits) : Except SessionError (List Match) :=
  ((session.runAll evaluations).evaluate plan visits).1

/-- If all evaluations go on these tours, the answer to the plan is always the same, whichever plans
of the pool have been evaluated before. -/
def AnswersOn (session : Session) (visits : Visits) (pool : List Plan) (plan : Plan)
    (answer : Except SessionError (List Match)) : Prop :=
  ∀ evaluations ⊆ pool, session.answerAfter (evaluations.map (·, visits)) plan visits = answer

theorem onlyEvaluated_runAll (identified : Condition.Identified pool) {evaluations : List Plan}
    (known : ∀ plan ∈ evaluations, ∀ d ∈ Condition.partsAll plan.conditions,
      d ∈ Condition.partsAll pool) (h : session.OnlyEvaluated visits pool later) :
    session.OnlyEvaluated visits pool (later.runAll (evaluations.map (·, visits))) := by
  induction evaluations generalizing later with
  | nil => exact h
  | cons plan evaluations ih =>
    obtain ⟨hplan, hrest⟩ := List.forall_mem_cons.1 known
    exact ih hrest (h.evaluate identified hplan).2

/-- However many plans of the pool have been evaluated, and in whatever order, the answer to another
can be foreseen from the partitions that were kept at the start. -/
theorem answersOn_renewed (session : Session) (visits : Visits) {pool : List Plan}
    (identified : Condition.Identified (pool.flatMap (·.conditions))) {plan : Plan}
    (hplan : plan ∈ pool) : session.AnswersOn visits pool plan
      (plan.derive (.renewed visits session.groups) session.facts session.maxBindings) := by
  intro evaluations known
  have pooled : ∀ plan ∈ pool, ∀ d ∈ Condition.partsAll plan.conditions,
      d ∈ Condition.partsAll (pool.flatMap (·.conditions)) := fun plan hplan d hd =>
    Condition.mem_partsAll_flatMap hplan hd
  have start : session.OnlyEvaluated visits (pool.flatMap (·.conditions)) session :=
    ⟨rfl, rfl, .refl _⟩
  have onward := onlyEvaluated_runAll identified (fun plan hplan => pooled plan (known hplan)) start
  exact (onward.evaluate identified (pooled plan hplan)).1

/-- What an evaluation will find. -/
theorem evaluate_eq_renewed (session : Session) (visits : Visits) {plan : Plan}
    (identified : Condition.Identified plan.conditions) : (session.evaluate plan visits).1 =
      plan.derive (.renewed visits session.groups) session.facts session.maxBindings := by
  have alone : Condition.Identified ([plan].flatMap (·.conditions)) := by
    rwa [List.flatMap_singleton]
  exact session.answersOn_renewed visits alone List.mem_cons_self [] (List.nil_subset _)

end Session

end MatchAlgebra
