import MatchAlgebra.Proofs.History
import MatchAlgebra.Proofs.Products
import MatchAlgebra.Proofs.Twins

/-!
# Altered functions

Every function of a condition is given so many values, as many as the condition reads.  What it
makes of lists of another length does not matter: conditions with functions that agree on lists of
the right length make the same of rows.

    s.AltersTo s'  →  s.apply facts limit rows = s'.apply facts limit rows     (AltersTo.apply_eq)

The collectors of a grouping are given the components of whatever is bound to its source.  Their
number is known where the input ends by binding the tuple of all that the grouping reads
(`Grouping.MayFeed`).
-/

namespace MatchAlgebra

/-- The functions agree on lists of the length. -/
def AgreeAt {β : Type} (n : Nat) (f g : List Value → β) : Prop := ∀ xs, xs.length = n → f xs = g xs

theorem AgreeAt.refl {β : Type} (n : Nat) (f : List Value → β) : AgreeAt n f f := fun _ _ => rfl

/-! ## Joins -/

/-- The same comparison of the same right key with a left key that agrees. -/
structure KeyComparison.AltersTo (n : Nat) (c c' : KeyComparison) : Prop where
  comparison : c.comparison = c'.comparison
  left : AgreeAt n c.keys.left c'.keys.left
  right : c.keys.right = c'.keys.right

/-- Comparisons and predicates that agree one by one. -/
structure JoinRule.AltersTo (n : Nat) (rule rule' : JoinRule) : Prop where
  indexed : Option.Rel (List.Forall₂ (KeyComparison.AltersTo n)) rule.indexed rule'.indexed
  filter : Option.Rel (List.Forall₂ (AgreeAt n)) rule.filter rule'.filter

section
variable {n : Nat} {xs : List Value} (length : xs.length = n) (candidate : Value)
include length

theorem KeyComparison.AltersTo.holds_eq {c c' : KeyComparison} (h : c.AltersTo n c') :
    c.holds xs candidate = c'.holds xs candidate := by
  rw [holds, holds, h.comparison, h.left xs length, h.right]

theorem KeyComparisons.holds_eq {cs cs' : KeyComparisons}
    (h : List.Forall₂ (KeyComparison.AltersTo n) cs cs') :
    cs.holds xs candidate = cs'.holds xs candidate := by
  induction h with
  | nil => rfl
  | cons hc _ ih => exact congrArg₂ and (hc.holds_eq length candidate) ih

theorem JoinPredicates.holds_eq {ps ps' : JoinPredicates} (h : List.Forall₂ (AgreeAt n) ps ps') :
    ps.holds xs candidate = ps'.holds xs candidate := by
  induction h with
  | nil => rfl
  | cons hp _ ih => exact congrArg₂ and (congrFun (hp xs length) candidate) ih

theorem JoinRule.AltersTo.holds_eq {rule rule' : JoinRule} (h : rule.AltersTo n rule') :
    rule.holds xs candidate = rule'.holds xs candidate := by
  obtain ⟨indexed, filter⟩ := rule
  obtain ⟨indexed', filter'⟩ := rule'
  obtain ⟨comparisons, predicates⟩ := h
  refine congrArg₂ and ?_ ?_
  · cases comparisons with
    | none => rfl
    | some h => exact KeyComparisons.holds_eq length candidate h
  · cases predicates with
    | none => rfl
    | some h => exact JoinPredicates.holds_eq length candidate h

end

/-- Tests of pairs agree on lists with one value more. -/
theorem JoinPredicates.agree_overPair {n : Nat} {ps ps' : JoinPredicates}
    (h : List.Forall₂ (AgreeAt n) ps ps') : AgreeAt (n + 1) (ps.overPair n) (ps'.overPair n) := by
  intro values length
  refine JoinPredicates.holds_eq ?_ _ h
  rw [List.length_take, length]
  omega

/-! ## Steps -/

/-- The same step, with functions that agree on as many values as it reads. -/
inductive Step.AltersTo : Step → Step → Prop
  | pattern (bound : Variable) (type : FactType) :
      AltersTo (.pattern bound type) (.pattern bound type)
  | filter {inputs : List Variable} {p p' : TuplePredicate} (agree : AgreeAt inputs.length p p') :
      AltersTo (.filter inputs p) (.filter inputs p')
  | join {inputs : List Variable} {target : Variable} {index : Nat} {c c' : KeyComparison}
      (agree : c.AltersTo inputs.length c') :
      AltersTo (.join ⟨inputs, target, index, c⟩) (.join ⟨inputs, target, index, c'⟩)
  | bind {bound : Variable} {inputs : List Variable} {f f' : TupleFunction}
      (agree : AgreeAt inputs.length f f') : AltersTo (.bind bound inputs f) (.bind bound inputs f')
  | existence {quantifier : Quantifier} {candidate : Variable} {type : FactType}
      {inputs : List Variable} {rule rule' : JoinRule} (agree : rule.AltersTo inputs.length rule') :
      AltersTo (.existence ⟨quantifier, candidate, type, inputs, rule⟩)
        (.existence ⟨quantifier, candidate, type, inputs, rule'⟩)

/-- What is made of values that were read is the same. -/
theorem Row.bind_read_eq {β : Type} {vs : List Variable}
    {f g : List Value → Except SessionError β} (agree : AgreeAt vs.length f g) (row : Row) :
    row.read vs >>= f = row.read vs >>= g := by
  cases h : row.read vs with
  | error e => rfl
  | ok xs => exact agree xs (Row.read_eq_ok_iff.1 h).length_eq.symm

theorem Row.map_read_eq {β : Type} {vs : List Variable} {f g : List Value → β}
    (agree : AgreeAt vs.length f g) (row : Row) : f <$> row.read vs = g <$> row.read vs := by
  rw [map_eq_pure_bind, map_eq_pure_bind]
  exact row.bind_read_eq fun xs length => congrArg pure (agree xs length)

namespace Step.AltersTo

variable {s s' : Step}

theorem binds_eq (h : s.AltersTo s') : s.binds = s'.binds := by
  cases h <;> rfl

/-- An altered step makes the same of rows. -/
theorem apply_eq (h : s.AltersTo s') (facts : List Fact) (limit : Nat) (rows : List Row) :
    s.apply facts limit rows = s'.apply facts limit rows := by
  cases h with
  | pattern bound type => rfl
  | filter agree =>
    exact congrArg (Row.keep · rows) (funext fun row => row.map_read_eq agree)
  | @join inputs target index c c' agree =>
    have same : ∀ row : Row, JoinTest.passes ⟨inputs, target, index, c⟩ row =
        JoinTest.passes ⟨inputs, target, index, c'⟩ row := by
      intro row
      refine row.bind_read_eq fun xs length => ?_
      refine congrArg (row.get target >>= ·) (funext fun candidate => ?_)
      exact congrArg pure (agree.holds_eq length candidate)
    exact congrArg (Row.keep · rows) (funext same)
  | @bind bound inputs f f' agree =>
    have same : ∀ row : Row, (do let xs ← row.read inputs; return row.bind bound (f xs)) =
        (do let xs ← row.read inputs; return row.bind bound (f' xs) : Except SessionError Row) :=
      fun row => row.bind_read_eq fun xs length =>
        congrArg (fun x => pure (row.bind bound x)) (agree xs length)
    exact congrArg (Row.change · rows) (funext same)
  | @existence quantifier candidate type inputs rule rule' agree =>
    have same : ∀ row : Row,
        ExistenceTest.passes ⟨quantifier, candidate, type, inputs, rule⟩ facts row =
          ExistenceTest.passes ⟨quantifier, candidate, type, inputs, rule'⟩ facts row := by
      intro row
      refine row.bind_read_eq fun xs length => congrArg pure ?_
      refine congrArg quantifier.holds (congrArg (List.any _) (funext fun fact => ?_))
      exact agree.holds_eq length fact.value
    exact congrArg (Row.keep · rows) (funext same)

end Step.AltersTo

/-! ## Groupings and plans -/

/-- What can be fed to the collectors of a grouping with the input.  An input that ends by binding
the tuple of what the grouping reads to its source feeds tuples of so many values. -/
def Grouping.MayFeed (grouping : Grouping) (input : List Condition) (xs : List Value) : Prop :=
  ∀ source ∈ grouping.source, ∀ before id,
    input = before ++ [.step id (.bind source grouping.inputs wholeTuple)] →
      xs.length = grouping.inputs.length

/-- The same measure of values that agree. -/
structure Collector.AltersTo (fed : List Value → Prop) (c c' : Collector) : Prop where
  measure : c.measure = c'.measure
  mapping : ∀ xs, fed xs → c.mapping xs = c'.mapping xs

structure GroupKey.AltersTo (n : Nat) (k k' : GroupKey) : Prop where
  bound : k.bound = k'.bound
  function : AgreeAt n k.function k'.function

structure CollectorOutput.AltersTo (fed : List Value → Prop) (o o' : CollectorOutput) : Prop where
  bound : o.bound = o'.bound
  collector : o.collector.AltersTo fed o'.collector

/-- The same grouping, with a key that agrees on as many values as it reads and collectors that
agree on what can be fed to them. -/
structure Grouping.AltersTo (input : List Condition) (grouping grouping' : Grouping) : Prop where
  inputs : grouping.inputs = grouping'.inputs
  source : grouping.source = grouping'.source
  key : Option.Rel (GroupKey.AltersTo grouping.inputs.length) grouping.key grouping'.key
  outputs : List.Forall₂ (CollectorOutput.AltersTo (grouping.MayFeed input)) grouping.outputs
    grouping'.outputs

namespace Grouping.AltersTo

variable {input : List Condition} {grouping grouping' : Grouping}

theorem key_bound_eq (h : grouping.AltersTo input grouping') :
    grouping.key.map (·.bound) = grouping'.key.map (·.bound) := by
  have hkey := h.key
  generalize grouping.key = k at hkey
  generalize grouping'.key = k' at hkey
  cases hkey with
  | none => rfl
  | some hk => rw [Option.map_some, Option.map_some, hk.bound]

theorem outputs_bound_eq (h : grouping.AltersTo input grouping') :
    grouping.outputs.map (·.bound) = grouping'.outputs.map (·.bound) :=
  map_eq_map_iff.2 (h.outputs.imp fun _ _ => (·.bound))

theorem binds_eq (h : grouping.AltersTo input grouping') : grouping.binds = grouping'.binds := by
  rw [Grouping.binds, Grouping.binds, h.key_bound_eq, h.outputs_bound_eq]

end Grouping.AltersTo

/-- The same condition with altered functions, at any depth. -/
inductive Condition.AltersTo : Condition → Condition → Prop
  | step (id : Nat) {s s' : Step} (step : s.AltersTo s') : AltersTo (.step id s) (.step id s')
  | group (id : Nat) {grouping grouping' : Grouping} {input input' : List Condition}
      (grouping_alters : grouping.AltersTo input grouping')
      (inside : List.Forall₂ AltersTo input input') :
      AltersTo (.group id grouping input) (.group id grouping' input')

/-- The same kind of weigher; the functions agree on lists of the length. -/
inductive Weigher.AltersTo (n : Nat) : Weigher → Weigher → Prop
  | unit : AltersTo n .unit .unit
  | long {f f' : List Value → Int64} (agree : AgreeAt n f f') : AltersTo n (.long f) (.long f')
  | decimal {f f' : List Value → Decimal} (agree : AgreeAt n f f') :
      AltersTo n (.decimal f) (.decimal f')

structure Plan.AltersTo (plan plan' : Plan) : Prop where
  conditions : List.Forall₂ Condition.AltersTo plan.conditions plan'.conditions
  visible : plan.visible = plan'.visible
  weigher : plan.weigher.AltersTo plan.visible.length plan'.weigher

/-- The same request; a plan that is evaluated may be altered. -/
inductive Request.AltersTo : Request → Request → Prop
  | insert (type : FactType) (value : Value) : AltersTo (.insert type value) (.insert type value)
  | update (handle : Nat) (value : Value) : AltersTo (.update handle value) (.update handle value)
  | retract (handle : Nat) : AltersTo (.retract handle) (.retract handle)
  | evaluate {plan plan' : Plan} (h : plan.AltersTo plan') (visits : Visits) :
      AltersTo (.evaluate plan visits) (.evaluate plan' visits)

/-! ### Nothing altered -/

theorem optionRel_refl {α : Type} {R : α → α → Prop} (h : ∀ a, R a a) (o : Option α) :
    Option.Rel R o o := by
  cases o with
  | none => exact .none
  | some a => exact .some (h a)

theorem KeyComparison.AltersTo.refl (n : Nat) (c : KeyComparison) : c.AltersTo n c :=
  ⟨rfl, .refl n _, rfl⟩

theorem JoinRule.AltersTo.refl (n : Nat) (rule : JoinRule) : rule.AltersTo n rule where
  indexed := optionRel_refl (fun _ => List.forall₂_same.2 fun c _ => .refl n c) _
  filter := optionRel_refl (fun _ => List.forall₂_same.2 fun p _ => .refl n p) _

theorem Step.AltersTo.refl (s : Step) : s.AltersTo s := by
  cases s with
  | pattern bound type => exact .pattern bound type
  | filter inputs predicate => exact .filter (.refl _ predicate)
  | join test => exact .join (.refl _ test.comparison)
  | bind bound inputs function => exact .bind (.refl _ function)
  | existence test => exact .existence (.refl _ test.joiners)

theorem Grouping.AltersTo.refl (input : List Condition) (grouping : Grouping) :
    grouping.AltersTo input grouping where
  inputs := rfl
  source := rfl
  key := optionRel_refl (fun _ => ⟨rfl, .refl _ _⟩) _
  outputs := List.forall₂_same.2 fun _ _ => ⟨rfl, rfl, fun _ _ => rfl⟩

mutual

theorem Condition.AltersTo.refl : ∀ c : Condition, c.AltersTo c
  | .step id s => .step id (.refl s)
  | .group id grouping input => .group id (.refl input grouping) (reflAll input)

theorem Condition.AltersTo.reflAll :
    ∀ cs : List Condition, List.Forall₂ Condition.AltersTo cs cs
  | [] => .nil
  | c :: cs => .cons (refl c) (reflAll cs)

end

theorem Weigher.AltersTo.refl (n : Nat) (weigher : Weigher) : weigher.AltersTo n weigher := by
  cases weigher with
  | unit => exact .unit
  | long f => exact .long (.refl n f)
  | decimal f => exact .decimal (.refl n f)

/-- Any plan may stay as it is. -/
theorem Plan.AltersTo.refl (plan : Plan) : plan.AltersTo plan :=
  ⟨Condition.AltersTo.reflAll plan.conditions, rfl, .refl _ plan.weigher⟩

end MatchAlgebra
