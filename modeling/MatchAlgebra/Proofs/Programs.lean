import MatchAlgebra.Proofs.Renumbering
import MatchAlgebra.Proofs.Verification

/-!
# Programs of the algebra

A program builds expressions by the operations of the algebra, one after the other, and ends in the
plan of one of them or in an error.  Any operation may fail; the program then goes on as it is told
for the error, in most cases by failing with it.  All variables come from one factory.

What a program comes to does not depend on the supply that it draws from: it fails with one error,
or it makes one plan with other numbers.  From `start`, once it has made a factory,

    SameOutcome (Plan.Issued start run.2) p.outcome run.1                      (Program.run_unused)

where `p.outcome` is what it comes to on numbers that count from zero.
-/

namespace MatchAlgebra

/-! ## Programs -/

/-- An operation of the algebra on some of so many expressions. -/
inductive Call (n : Nat) where
  | forEach (type : FactType)
  | filter (operand : Fin n) (predicate : TuplePredicate)
  | join (left right : Fin n) (joiners : List Joiner)
  | existence (operand : Fin n) (quantifier : Quantifier) (type : FactType)
      (joiners : List Joiner)
  | map (operand : Fin n) (function : TupleFunction)
  | groupBy (operand : Fin n) (request : GroupRequest)

def Call.build {n : Nat} (factory : Factory) (es : Fin n → Expression) : Call n → Build Expression
  | .forEach type => Expression.forEach factory type
  | .filter operand predicate => (es operand).filter predicate
  | .join left right joiners => (es left).join (es right) joiners
  | .existence operand quantifier type joiners =>
    (es operand).checkExistence factory quantifier type joiners
  | .map operand function => (es operand).map factory function
  | .groupBy operand request => (es operand).groupBy factory request

/-- A program that has built so many expressions, the latest first. -/
inductive Program : Nat → Type where
  | terminate {n : Nat} (operand : Fin n) (weigher : Weigher) : Program n
  | fail {n : Nat} (error : PlanError) : Program n
  | call {n : Nat} (call : Call n) (success : Program (n + 1)) (failure : PlanError → Program n) :
      Program n

/-- Goes on after a build, also after one that has failed. -/
def Build.either {α β : Type} (m : Build α) (success : α → Build β)
    (failure : PlanError → Build β) : Build β :=
  ExceptT.mk do
    match ← m.run with
    | .ok a => (success a).run
    | .error e => (failure e).run

theorem Build.run_either {α β : Type} (m : Build α) (success : α → Build β)
    (failure : PlanError → Build β) (s : Supply) : (m.either success failure).run.run s =
      match m.run.run s with
      | (.ok a, s') => (success a).run.run s'
      | (.error e, s') => (failure e).run.run s' := by
  show StateT.run (m.run >>= _) s = _
  rw [StateT.run_bind]
  generalize m.run.run s = out
  obtain ⟨r, s'⟩ := out
  cases r <;> rfl

/-- One expression more, before those that there are. -/
def Expression.cons {n : Nat} (e : Expression) (es : Fin n → Expression) :
    Fin (n + 1) → Expression :=
  Fin.cons e es

def Program.build (factory : Factory) : {n : Nat} → Program n → (Fin n → Expression) → Build Plan
  | _, .terminate operand weigher, es => return (es operand).toPlan weigher
  | _, .fail error, _ => check (.error error)
  | _, .call c success failure, es =>
    (c.build factory es).either (fun e => success.build factory (Expression.cons e es))
      fun error => (failure error).build factory es

/-! ## Calls -/

namespace Call

variable {n : Nat} {start origin : Supply}

theorem renumbers (c : Call n) (es : Fin n → Expression) :
    Build.Renumbers start origin (Expression.Renumbered start) (c.build ⟨0⟩ es)
      (c.build ⟨start.nextScope⟩ fun i => (es i).rename start.numbering) := by
  cases c with
  | forEach type => exact Expression.forEach_renumbers type
  | filter operand predicate => exact Expression.filter_renumbers (es operand) predicate
  | join left right joiners => exact Expression.join_renumbers (es left) (es right) joiners
  | existence operand quantifier type joiners =>
    exact Expression.checkExistence_renumbers (es operand) quantifier type joiners
  | map operand function => exact Expression.map_renumbers (es operand) function
  | groupBy operand request => exact Expression.groupBy_renumbers (es operand) request

/-- A call derives one more expression from those that are known. -/
theorem exists_derives {c : Call n} {factory : Factory} {es : Fin n → Expression}
    {known : List (Term × Expression)} (operands : ∀ i, ∃ t, (t, es i) ∈ known) {s s' : Supply}
    {e : Expression} (makes : (c.build factory es).Yields s e s') :
    ∃ t, Derives s known t e s' := by
  cases c with
  | forEach type => exact ⟨_, .forEach makes⟩
  | filter operand predicate =>
    obtain ⟨t, ht⟩ := operands operand
    exact ⟨_, .filter ht makes⟩
  | join left right joiners =>
    obtain ⟨t, ht⟩ := operands left
    obtain ⟨t', ht'⟩ := operands right
    exact ⟨_, .join ht ht' makes⟩
  | existence operand quantifier type joiners =>
    obtain ⟨t, ht⟩ := operands operand
    exact ⟨_, .existence ht makes⟩
  | map operand function =>
    obtain ⟨t, ht⟩ := operands operand
    exact ⟨_, .map ht makes⟩
  | groupBy operand request =>
    obtain ⟨t, ht⟩ := operands operand
    exact ⟨_, .groupBy ht makes⟩

end Call

/-! ## Programs on other numbers -/

/-- The plan is that of an expression which has been built when the supply is reached. -/
def Plan.Arises (s : Supply) (plan : Plan) : Prop :=
  ∃ known t e weigher, LooselyBuilt s known ∧ (t, e) ∈ known ∧ plan = e.toPlan weigher

theorem Supply.Follows.here {start origin plain s : Supply} (h : start.Follows origin plain s) :
    start.Follows plain plain s :=
  { h with onward := ⟨rfl, Nat.le_refl _, Nat.le_refl _⟩ }

namespace Program

variable {n : Nat} {start : Supply}

/-- **Programs do not depend on numbers.**  The induction is on the program; what has been built on
plain numbers so far goes along, since a call that fails uses up numbers too. -/
theorem renumbers (p : Program n) (es : Fin n → Expression) {plain s : Supply}
    {known : List (Term × Expression)} (follows : start.Follows plain plain s)
    (built : LooselyBuilt plain known) (operands : ∀ i, ∃ t, (t, es i) ∈ known) :
    let run := (p.build ⟨0⟩ es).run.run plain
    let run' := (p.build ⟨start.nextScope⟩ fun i => (es i).rename start.numbering).run.run s
    SameOutcome (fun plan plan' => plan.Arises run.2 ∧ plan' = plan.rename start.numbering) run.1
        run'.1 ∧ start.Follows run.2 run.2 run'.2 := by
  induction p generalizing plain s known with
  | terminate operand weigher =>
    obtain ⟨t, ht⟩ := operands operand
    have arises : ((es operand).toPlan weigher).Arises plain :=
      ⟨known, t, es operand, weigher, built, ht, rfl⟩
    exact ⟨.ok ⟨arises, Expression.toPlan_rename _ _ weigher⟩, follows⟩
  | fail error => exact ⟨.error error, follows⟩
  | call c success failure ih_success ih_failure =>
    obtain ⟨outcome, states⟩ := c.renumbers es plain s follows
    simp only [build, Build.run_either]
    generalize hrun : (c.build ⟨0⟩ es).run.run plain = out at outcome states ⊢
    generalize (c.build ⟨start.nextScope⟩ _).run.run s = out' at outcome states ⊢
    obtain ⟨r, plain'⟩ := out
    obtain ⟨r', s'⟩ := out'
    cases outcome with
    | error error =>
      -- nothing more has been built, but both supplies have moved on
      exact ih_failure error es states.here (.other built states.onward) operands
    | @ok e e' renumbered =>
      cases renumbered
      obtain ⟨t, derives⟩ := c.exists_derives operands hrun
      have cons : (fun i => (Expression.cons e es i).rename start.numbering) =
          Expression.cons (e.rename start.numbering) fun i => (es i).rename start.numbering := by
        funext i
        cases i using Fin.cases with
        | zero => rfl
        | succ i => rfl
      have operands_cons : ∀ i, ∃ t', (t', Expression.cons e es i) ∈ (t, e) :: known := by
        intro i
        cases i using Fin.cases with
        | zero => exact ⟨t, List.mem_cons_self⟩
        | succ i =>
          obtain ⟨t', ht'⟩ := operands i
          exact ⟨t', List.mem_cons_of_mem _ ht'⟩
      have rest := ih_success _ states.here (.operation built derives) operands_cons
      rwa [cons] at rest

end Program

/-! ## Plans of programs -/

namespace Plan.Arises

variable {s : Supply} {plan : Plan}

theorem verify (h : plan.Arises s) : plan.verify = .ok () := by
  obtain ⟨known, t, e, weigher, built, operand, rfl⟩ := h
  exact (Expression.verify_toPlan built operand weigher).1

/-- The conditions of the plan have different ids, all of them drawn from the supply. -/
theorem identified (h : plan.Arises s) : Condition.Identified plan.conditions ∧
    ∀ d ∈ Condition.partsAll plan.conditions, ∃ k < s.drawn, d.id = s.idOf k := by
  obtain ⟨known, t, e, weigher, built, operand, rfl⟩ := h
  obtain ⟨r, rfl, shapes⟩ := built.exists_registry
  have files := (shapes _ operand).files
  exact ⟨Registry.identified_log files,
    fun d hd => r.drawn d (Registry.partsAll_log_subset files d hd)⟩

end Plan.Arises

/-- The id is among those that were drawn from the first supply up to the second. -/
def Supply.Drew (start s : Supply) (id : Nat) : Prop :=
  ∃ k, start.drawn ≤ k ∧ k < s.drawn ∧ id = start.idOf k

/-- The second plan is the first with the numbers that `start` gives for its own, up to `s`. -/
structure Plan.Issued (start s : Supply) (plan plan' : Plan) : Prop where
  renamed : plan' = plan.rename start.numbering
  verified : plan'.verify = .ok ()
  identified : Condition.Identified plan'.conditions
  drawn : ∀ d ∈ Condition.partsAll plan'.conditions, start.Drew s d.id

theorem Plan.Arises.issued {start plain s : Supply} {plan : Plan} (h : plan.Arises plain)
    (follows : start.Follows plain plain s) :
    Plan.Issued start s plan (plan.rename start.numbering) := by
  obtain ⟨identified, drawn⟩ := h.identified
  refine ⟨rfl, (plan.verify_rename _).trans h.verify, identified.rename _, fun d hd => ?_⟩
  have parts : d ∈ (Condition.partsAll plan.conditions).map
      (Condition.rename start.numbering) := by
    rw [← Condition.partsAll_rename, Condition.renameAll_eq_map]
    exact hd
  obtain ⟨c, hc, rfl⟩ := List.mem_map.1 parts
  obtain ⟨k, hk, hid⟩ := drawn c hc
  rw [Condition.id_rename, hid, follows.plain_ids]
  refine ⟨start.drawn + k, Nat.le_add_right _ _, ?_, rfl⟩
  rw [follows.drawn]
  omega

/-- Supplies after a factory was made and variables and conditions were drawn. -/
structure Supply.Spent (start s : Supply) : Prop where
  idOf : s.idOf = start.idOf
  drawn : start.drawn ≤ s.drawn
  nextScope : s.nextScope = start.nextScope + 1
  unused : s.Unused

namespace Program

/-- What the program comes to on numbers that count from zero. -/
def outcome (p : Program 0) : Except PlanError Plan :=
  ((p.build ⟨0⟩ Fin.elim0).run.run .blank).1

/-- On any unused supply the program comes to the same, with other numbers. -/
theorem run_unused (p : Program 0) {start : Supply} (unused : start.Unused) :
    let run := (p.build ⟨start.nextScope⟩ Fin.elim0).run.run
      { start with nextScope := start.nextScope + 1 }
    SameOutcome (Plan.Issued start run.2) p.outcome run.1 ∧ start.Spent run.2 := by
  have follows : start.Follows .blank .blank { start with nextScope := start.nextScope + 1 } :=
    ⟨rfl, ⟨rfl, Nat.le_refl _, Nat.le_refl _⟩, rfl, rfl, rfl, rfl, unused _ (Nat.le_refl _),
      fun scope above => unused scope (Nat.le_of_succ_le above)⟩
  have none_built : (fun i => (Fin.elim0 i : Expression).rename start.numbering) = Fin.elim0 :=
    funext fun i => i.elim0
  have run := p.renumbers Fin.elim0 follows (.start _) fun i => i.elim0
  rw [none_built] at run
  obtain ⟨outcome, after⟩ := run
  refine ⟨outcome.imp fun plan plan' h => ?_, after.idOf, ?_, after.nextScope, after.unused⟩
  · obtain ⟨arises, rfl⟩ := h
    exact arises.issued after
  · rw [after.drawn]
    exact Nat.le_add_right _ _

end Program

end MatchAlgebra
