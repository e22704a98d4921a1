import MatchAlgebra.Proofs.History

/-!
# Renaming

A renaming gives other scopes to variables, other ids to conditions and other numbers to nodes,
different ones to different ones.  The names of variables stay, since they only count what a factory
has made.  What a plan finds does not depend on any of these numbers, nor does its verification:

    (plan.rename ρ).derive .afresh facts limit = plan.derive .afresh facts limit
                                                                            (Plan.derive_rename)
    (plan.rename ρ).verify = plan.verify                                    (Plan.verify_rename)

So plans that differ in them only can take each other's place in sessions, which keep partitions
under the ids of conditions (`Plan.interchangeable_rename`).
-/

namespace MatchAlgebra

/-! ## Renamings -/

/-- Other scopes, ids and nodes, never one for two. -/
structure Renaming where
  scope : Nat → Nat
  condition : Nat → Nat
  node : Nat → Nat
  scope_injective : Function.Injective scope
  condition_injective : Function.Injective condition
  node_injective : Function.Injective node

def VariableId.rename (id : VariableId) (ρ : Renaming) : VariableId :=
  { id with scope := ρ.scope id.scope }

def Variable.rename (v : Variable) (ρ : Renaming) : Variable := { v with id := v.id.rename ρ }

def JoinTest.rename (test : JoinTest) (ρ : Renaming) : JoinTest :=
  { test with inputs := test.inputs.map (·.rename ρ), target := test.target.rename ρ }

def ExistenceTest.rename (test : ExistenceTest) (ρ : Renaming) : ExistenceTest :=
  { test with candidate := test.candidate.rename ρ, inputs := test.inputs.map (·.rename ρ) }

def Step.rename (s : Step) (ρ : Renaming) : Step :=
  match s with
  | .pattern bound type => .pattern (bound.rename ρ) type
  | .filter inputs predicate => .filter (inputs.map (·.rename ρ)) predicate
  | .join test => .join (test.rename ρ)
  | .bind bound inputs function => .bind (bound.rename ρ) (inputs.map (·.rename ρ)) function
  | .existence test => .existence (test.rename ρ)

def GroupKey.rename (key : GroupKey) (ρ : Renaming) : GroupKey :=
  { key with bound := key.bound.rename ρ }

def CollectorOutput.rename (output : CollectorOutput) (ρ : Renaming) : CollectorOutput :=
  { output with bound := output.bound.rename ρ }

def Grouping.rename (grouping : Grouping) (ρ : Renaming) : Grouping where
  inputs := grouping.inputs.map (·.rename ρ)
  source := grouping.source.map (·.rename ρ)
  key := grouping.key.map (·.rename ρ)
  outputs := grouping.outputs.map (·.rename ρ)

namespace Condition

mutual

/-- The input of a grouping is renamed with it. -/
def rename (ρ : Renaming) : Condition → Condition
  | .step id s => .step (ρ.condition id) (s.rename ρ)
  | .group id grouping input =>
    .group (ρ.condition id) (grouping.rename ρ) (renameAll ρ input)

def renameAll (ρ : Renaming) : List Condition → List Condition
  | [] => []
  | c :: cs => c.rename ρ :: renameAll ρ cs

end

theorem renameAll_eq_map (ρ : Renaming) (cs : List Condition) :
    renameAll ρ cs = cs.map (rename ρ) := by
  induction cs with
  | nil => rfl
  | cons c cs ih => rw [renameAll, ih, List.map_cons]

end Condition

def Plan.rename (plan : Plan) (ρ : Renaming) : Plan :=
  { plan with
    conditions := plan.conditions.map (Condition.rename ρ)
    visible := plan.visible.map (·.rename ρ) }

/-- A list contains what it contained before its elements were changed. -/
theorem contains_map {α β : Type} [BEq α] [BEq β] {f : α → β}
    (beq : ∀ a b : α, (f a == f b) = (a == b)) (as : List α) (a : α) :
    (as.map f).contains (f a) = as.contains a := by
  induction as with
  | nil => rfl
  | cons b as ih => rw [List.map_cons, List.contains_cons, List.contains_cons, beq, ih]

variable (ρ : Renaming)

/-! ## Variables -/

theorem VariableId.rename_injective : Function.Injective (VariableId.rename · ρ) := by
  rintro ⟨scope, index⟩ ⟨scope', index'⟩ h
  obtain ⟨hscope, rfl⟩ := VariableId.mk.inj h
  cases ρ.scope_injective hscope
  rfl

namespace Variable

theorem beq_rename (v w : Variable) : (v.rename ρ == w.rename ρ) = (v == w) := by
  show decide (v.id.rename ρ = w.id.rename ρ) = decide (v.id = w.id)
  exact decide_eq_decide.2 (VariableId.rename_injective ρ).eq_iff

theorem contains_rename (vs : List Variable) (v : Variable) :
    (vs.map (·.rename ρ)).contains (v.rename ρ) = vs.contains v :=
  contains_map (beq_rename ρ) vs v

end Variable

/-! ## Rows -/

namespace Row

def rename (row : Row) (ρ : Renaming) : Row :=
  { row with values := row.values.map fun b => (b.1.rename ρ, b.2) }

theorem get_rename (row : Row) (v : Variable) : (row.rename ρ).get (v.rename ρ) = row.get v := by
  have same : ∀ (bs : List (VariableId × Value)) (id : VariableId),
      (bs.map fun b => (b.1.rename ρ, b.2)).lookup (id.rename ρ) = bs.lookup id := by
    intro bs id
    induction bs with
    | nil => rfl
    | cons b bs ih =>
      have beq : (id.rename ρ == b.1.rename ρ) = (id == b.1) := by
        rw [Bool.eq_iff_iff, beq_iff_eq, beq_iff_eq]
        exact (VariableId.rename_injective ρ).eq_iff
      rw [List.map_cons, List.lookup_cons, List.lookup_cons, beq, ih]
  rw [get, get, rename, Variable.rename, same]

theorem read_rename (row : Row) (vs : List Variable) :
    (row.rename ρ).read (vs.map (·.rename ρ)) = row.read vs :=
  row.inTurn_read.comp_eq (row.rename ρ).inTurn_read (row.get_rename ρ) vs

theorem bindFact_rename (row : Row) (v : Variable) (fact : Fact) :
    (row.rename ρ).bindFact (v.rename ρ) fact = (row.bindFact v fact).rename ρ := rfl

theorem merge_rename (row other : Row) :
    (row.rename ρ).merge (other.rename ρ) = (row.merge other).rename ρ := by
  rw [merge, merge, rename, rename, rename, List.map_append]

theorem keep_rename {test test' : Row → Except SessionError Bool}
    (h : ∀ row : Row, test' (row.rename ρ) = test row) (rows : List Row) :
    keep test' (rows.map (·.rename ρ)) = (keep test rows).map (·.map (·.rename ρ)) := by
  induction rows with
  | nil => rfl
  | cons row rows ih =>
    rw [List.map_cons, keep, keep, h, ih]
    cases test row with
    | error e => rfl
    | ok kept =>
      cases keep test rows with
      | error e => rfl
      | ok rest => cases kept <;> rfl

theorem change_rename {f f' : Row → Except SessionError Row}
    (h : ∀ row : Row, f' (row.rename ρ) = (f row).map (·.rename ρ)) (rows : List Row) :
    change f' (rows.map (·.rename ρ)) = (change f rows).map (·.map (·.rename ρ)) :=
  (inTurn_change f).map_eq (inTurn_change f') h rows

theorem cross_rename {α β : Type} (limit : Nat) (rows : List Row) (items : List α) {g : α → β}
    {join : Row → α → Row} {join' : Row → β → Row}
    (h : ∀ (row : Row) (item : α), join' (row.rename ρ) (g item) = (join row item).rename ρ) :
    cross limit (rows.map (·.rename ρ)) (items.map g) join' =
      (cross limit rows items join).map (·.map (·.rename ρ)) := by
  have joined : (rows.map (·.rename ρ)).flatMap (fun row => (items.map g).map (join' row)) =
      (rows.flatMap fun row => items.map (join row)).map (·.rename ρ) := by
    rw [List.flatMap_map, List.map_flatMap]
    refine List.flatMap_congr fun row _ => ?_
    rw [List.map_map, List.map_map]
    exact List.map_congr_left fun item _ => h row item
  rw [cross, cross, List.length_map, List.length_map, joined]
  split <;> rfl

end Row

/-! ## Steps -/

theorem Step.apply_rename (s : Step) (facts : List Fact) (limit : Nat) (rows : List Row) :
    (s.rename ρ).apply facts limit (rows.map (·.rename ρ)) =
      (s.apply facts limit rows).map (·.map (·.rename ρ)) := by
  cases s with
  | pattern bound type =>
    have crossed : Row.cross limit (rows.map (·.rename ρ)) ((factsOf facts type).map id)
          (·.bindFact (bound.rename ρ) ·) =
        (Row.cross limit rows (factsOf facts type) (·.bindFact bound ·)).map
          (·.map (·.rename ρ)) :=
      Row.cross_rename ρ limit rows _ fun row fact => Row.bindFact_rename ρ row bound fact
    rwa [List.map_id] at crossed
  | filter inputs predicate =>
    refine Row.keep_rename ρ (fun row => ?_) rows
    rw [Row.read_rename]
  | join test =>
    refine Row.keep_rename ρ (fun row => ?_) rows
    rw [JoinTest.passes, JoinTest.passes, JoinTest.rename, Row.read_rename, Row.get_rename]
  | bind bound inputs function =>
    refine Row.change_rename ρ (fun row => ?_) rows
    rw [Row.read_rename]
    cases row.read inputs <;> rfl
  | existence test =>
    refine Row.keep_rename ρ (fun row => ?_) rows
    rw [ExistenceTest.passes, ExistenceTest.passes, ExistenceTest.rename, Row.read_rename]
    rfl

/-! ## Groupings -/

namespace Grouping

variable (grouping : Grouping)

theorem collectors_rename : (grouping.rename ρ).collectors = grouping.collectors := by
  rw [collectors, rename, List.map_map, collectors]
  rfl

theorem measure_rename (members : List KeyedSource) :
    (grouping.rename ρ).measure members = grouping.measure members := by
  rw [measure, collectors_rename, measure]

theorem keyed_rename (row : Row) :
    (grouping.rename ρ).keyed (row.rename ρ) = grouping.keyed row := by
  have key : (grouping.rename ρ).keyOf (row.rename ρ) = grouping.keyOf row := by
    unfold keyOf
    rw [rename]
    dsimp only
    rw [Row.read_rename]
    cases grouping.key <;> rfl
  have source : (grouping.rename ρ).sourceOf (row.rename ρ) = grouping.sourceOf row := by
    unfold sourceOf
    rw [rename]
    cases grouping.source with
    | none => rfl
    | some source => exact Row.get_rename ρ row source
  rw [keyed_eq, keyed_eq, key, source]
  rfl

theorem keyedAll_rename (rows : List Row) :
    (grouping.rename ρ).keyedAll (rows.map (·.rename ρ)) = grouping.keyedAll rows :=
  grouping.inTurn_keyedAll.comp_eq (grouping.rename ρ).inTurn_keyedAll (grouping.keyed_rename ρ)
    rows

theorem groupRow_rename (key : Value) (results : List Value) (facts : List Nat) :
    (grouping.rename ρ).groupRow key results facts =
      (grouping.groupRow key results facts).rename ρ := by
  have values : ((grouping.rename ρ).groupRow key results facts).values =
      (grouping.groupRow key results facts).values.map fun b => (b.1.rename ρ, b.2) := by
    have outputs : (grouping.outputs.map (·.rename ρ)).map (·.bound.id) =
        (grouping.outputs.map (·.bound.id)).map (·.rename ρ) := by
      rw [List.map_map, List.map_map]
      rfl
    rw [values_groupRow, values_groupRow, List.map_append, List.map_reverse, rename, outputs]
    dsimp only
    rw [List.zip_map_left]
    cases grouping.key <;> rfl
  show Row.mk ((grouping.rename ρ).groupRow key results facts).values facts = _
  rw [values]
  rfl

theorem regrouped_rename (rows : List KeyedSource) :
    (grouping.rename ρ).regrouped rows = (grouping.regrouped rows).map (·.rename ρ) := by
  rw [regrouped, regrouped, List.map_map]
  refine List.map_congr_left fun key _ => ?_
  rw [groupRow_rename, measure_rename]
  rfl

end Grouping

/-! ## Conditions -/

namespace Condition

mutual

theorem derive_rename (facts : List Fact) (limit : Nat) (rows : List Row) : ∀ c : Condition,
    (c.rename ρ).derive .afresh facts limit (rows.map (·.rename ρ)) =
      (c.derive .afresh facts limit rows).map (·.map (·.rename ρ))
  | .step id s => s.apply_rename ρ facts limit rows
  | .group id grouping input => by
    have inner : deriveAll .afresh facts limit [Row.empty] (renameAll ρ input) =
        (deriveAll .afresh facts limit [Row.empty] input).map (·.map (·.rename ρ)) :=
      deriveAll_rename facts limit [Row.empty] input
    rw [rename, derive, derive, inner]
    cases deriveAll .afresh facts limit [Row.empty] input with
    | error e => rfl
    | ok inner =>
      show ((grouping.rename ρ).keyedAll (inner.map (·.rename ρ)) >>= _) =
        (grouping.keyedAll inner >>= _).map _
      rw [Grouping.keyedAll_rename]
      cases grouping.keyedAll inner with
      | error e => rfl
      | ok keyed =>
        show Row.cross limit _ ((grouping.rename ρ).regrouped keyed) _ = _
        rw [Grouping.regrouped_rename]
        exact Row.cross_rename ρ limit rows _ (Row.merge_rename ρ)

theorem deriveAll_rename (facts : List Fact) (limit : Nat) (rows : List Row) :
    ∀ cs : List Condition, deriveAll .afresh facts limit (rows.map (·.rename ρ)) (renameAll ρ cs) =
      (deriveAll .afresh facts limit rows cs).map (·.map (·.rename ρ))
  | [] => rfl
  | c :: cs => by
    rw [renameAll, deriveAll, deriveAll, derive_rename]
    cases c.derive .afresh facts limit rows with
    | error e => rfl
    | ok rows => exact deriveAll_rename facts limit rows cs

end

theorem id_rename (c : Condition) : (c.rename ρ).id = ρ.condition c.id := by
  cases c <;> rfl

/-- Conditions are told apart by their ids. -/
theorem beq_rename (c d : Condition) : (c.rename ρ == d.rename ρ) = (c == d) := by
  show ((c.rename ρ).id == (d.rename ρ).id) = (c.id == d.id)
  rw [id_rename, id_rename, Bool.eq_iff_iff, beq_iff_eq, beq_iff_eq]
  exact ρ.condition_injective.eq_iff

theorem binds_rename (c : Condition) : (c.rename ρ).binds = c.binds.map (·.rename ρ) := by
  cases c with
  | step id s => cases s <;> rfl
  | group id grouping input =>
    show (grouping.rename ρ).binds = grouping.binds.map _
    rw [Grouping.binds, Grouping.binds, Grouping.rename, List.map_append, List.map_map,
      List.map_map]
    cases grouping.key <;> rfl

mutual

theorem parts_rename : ∀ c : Condition, (c.rename ρ).parts = c.parts.map (rename ρ)
  | .step id s => rfl
  | .group id grouping input => by
    rw [rename, parts, parts, partsAll_rename, List.map_cons, rename]

theorem partsAll_rename :
    ∀ cs : List Condition, partsAll (renameAll ρ cs) = (partsAll cs).map (rename ρ)
  | [] => rfl
  | c :: cs => by
    rw [renameAll, partsAll, partsAll, parts_rename, partsAll_rename, List.map_append]

end

/-- What is known by its id is known by its new id. -/
theorem Identified.rename {cs : List Condition} (h : Identified cs) :
    Identified (cs.map (rename ρ)) := by
  intro c hc d hd same
  rw [← renameAll_eq_map, partsAll_rename] at hc hd
  obtain ⟨old, hold, rfl⟩ := List.mem_map.1 hc
  obtain ⟨old', hold', rfl⟩ := List.mem_map.1 hd
  rw [id_rename, id_rename] at same
  rw [h old hold old' hold' (ρ.condition_injective same)]

theorem selfRespects_rename (c : Condition) : (c.rename ρ).SelfRespects ↔ c.SelfRespects := by
  cases c with
  | step id s =>
    cases s with
    | pattern bound type => exact Iff.rfl
    | filter inputs predicate => exact Iff.rfl
    | join test => exact Iff.rfl
    | bind bound inputs function => exact Iff.rfl
    | existence test => exact Iff.rfl
  | group id grouping input =>
    have key : (∀ key ∈ (grouping.rename ρ).key, TupleFunction.Respects key.function) ↔
        ∀ key ∈ grouping.key, TupleFunction.Respects key.function := by
      rw [Grouping.rename]
      cases grouping.key with
      | none => simp
      | some key => simp [GroupKey.rename]
    show (grouping.rename ρ).Respects ↔ grouping.Respects
    constructor
    · intro h
      exact ⟨key.1 h.key, grouping.collectors_rename ρ ▸ h.collectors⟩
    · intro h
      exact ⟨key.2 h.key, (grouping.collectors_rename ρ).symm ▸ h.collectors⟩

end Condition

/-! ## Verification -/

theorem requireBound_rename (bound : List Variable) (position : Nat) (wanted : List Variable) :
    requireBound (bound.map (·.rename ρ)) position (wanted.map (·.rename ρ)) =
      requireBound bound position wanted := by
  have same : (wanted.map (·.rename ρ)).find? (!(bound.map (·.rename ρ)).contains ·) =
      (wanted.find? (!bound.contains ·)).map (·.rename ρ) := by
    rw [List.find?_map]
    congr 2
    funext v
    show (!(bound.map _).contains (v.rename ρ)) = _
    rw [Variable.contains_rename]
  rw [requireBound, requireBound, same]
  cases wanted.find? (!bound.contains ·) <;> rfl

theorem Step.reads_rename (s : Step) : (s.rename ρ).reads = s.reads.map (·.rename ρ) := by
  cases s with
  | join test =>
    rw [rename, reads, reads, List.map_append]
    rfl
  | _ => rfl

theorem Grouping.readsInside_rename (grouping : Grouping) :
    (grouping.rename ρ).readsInside = grouping.readsInside.map (·.rename ρ) := by
  rw [readsInside, readsInside, rename, List.map_append]
  cases grouping.source <;> rfl

namespace Condition

mutual

theorem verify_rename (bound : List Variable) (position : Nat) : ∀ c : Condition,
    (c.rename ρ).verify (bound.map (·.rename ρ)) position =
      (c.verify bound position).map (·.map (·.rename ρ))
  | .step id s => by
    have reads := requireBound_rename ρ bound position s.reads
    have binds : (s.rename ρ).binds = s.binds.map (·.rename ρ) := binds_rename ρ (.step id s)
    rw [rename, verify, verify, Step.reads_rename, reads, binds, ← List.map_append]
    cases requireBound bound position s.reads <;> rfl
  | .group id grouping input => by
    have inner : verifyAll [] 0 (renameAll ρ input) =
        (verifyAll [] 0 input).map (·.map (·.rename ρ)) := verifyAll_rename [] 0 input
    have binds : (grouping.rename ρ).binds = grouping.binds.map (·.rename ρ) :=
      binds_rename ρ (.group id grouping input)
    rw [rename, verify, verify, inner, binds, ← List.map_append]
    cases verifyAll [] 0 input with
    | error e => rfl
    | ok inner =>
      have reads := requireBound_rename ρ inner position grouping.readsInside
      show (requireBound (inner.map (·.rename ρ)) position (grouping.rename ρ).readsInside >>= _) =
        (requireBound inner position grouping.readsInside >>= _).map _
      rw [Grouping.readsInside_rename, reads]
      cases requireBound inner position grouping.readsInside <;> rfl

theorem verifyAll_rename (bound : List Variable) (position : Nat) : ∀ cs : List Condition,
    verifyAll (bound.map (·.rename ρ)) position (renameAll ρ cs) =
      (verifyAll bound position cs).map (·.map (·.rename ρ))
  | [] => rfl
  | c :: cs => by
    rw [renameAll, verifyAll, verifyAll, verify_rename]
    cases c.verify bound position with
    | error e => rfl
    | ok bound => exact verifyAll_rename bound (position + 1) cs

end

end Condition

namespace Plan

variable (plan : Plan)

theorem verify_rename : (plan.rename ρ).verify = plan.verify := by
  have bound : Condition.verifyAll [] 0 (plan.conditions.map (Condition.rename ρ)) =
      (Condition.verifyAll [] 0 plan.conditions).map (·.map (·.rename ρ)) := by
    rw [← Condition.renameAll_eq_map]
    exact Condition.verifyAll_rename ρ [] 0 plan.conditions
  rw [verify, verify, rename, bound, List.length_map]
  cases Condition.verifyAll [] 0 plan.conditions with
  | error e => rfl
  | ok bound => exact requireBound_rename ρ bound plan.conditions.length plan.visible

theorem respects_rename : (plan.rename ρ).Respects ↔ plan.Respects := by
  have conditions : Condition.RespectsAll (plan.rename ρ).conditions ↔
      Condition.RespectsAll plan.conditions := by
    show (∀ d ∈ Condition.partsAll (plan.conditions.map (Condition.rename ρ)), _) ↔ _
    rw [← Condition.renameAll_eq_map, Condition.partsAll_rename, List.forall_mem_map]
    exact forall₂_congr fun d _ => d.selfRespects_rename ρ
  exact ⟨fun h => ⟨conditions.1 h.conditions, h.weigher⟩,
    fun h => ⟨conditions.2 h.conditions, h.weigher⟩⟩

theorem matchesOf_rename (rows : List Row) :
    (plan.rename ρ).matchesOf (rows.map (·.rename ρ)) = plan.matchesOf rows := by
  refine plan.inTurn_matchesOf.comp_eq (plan.rename ρ).inTurn_matchesOf (fun row => ?_) rows
  rw [matchOf, matchOf, rename, Row.read_rename]
  rfl

theorem derive_rename (facts : List Fact) (limit : Nat) :
    (plan.rename ρ).derive .afresh facts limit = plan.derive .afresh facts limit := by
  have rows : Condition.deriveAll .afresh facts limit [Row.empty]
        (plan.conditions.map (Condition.rename ρ)) =
      (Condition.deriveAll .afresh facts limit [Row.empty] plan.conditions).map
        (·.map (·.rename ρ)) := by
    rw [← Condition.renameAll_eq_map]
    exact Condition.deriveAll_rename ρ facts limit [Row.empty] plan.conditions
  rw [derive, derive]
  show (Condition.deriveAll .afresh facts limit [Row.empty] (plan.conditions.map _) >>= _) = _
  rw [rows]
  cases Condition.deriveAll .afresh facts limit [Row.empty] plan.conditions with
  | error e => rfl
  | ok rows => exact plan.matchesOf_rename ρ rows

/-! ## Sessions -/

/-- The plans have one name, and two sessions that hold the same facts answer them alike, whatever
either of them has been asked before and whatever tours it goes on. -/
structure Interchangeable (plan plan' : Plan) : Prop where
  name : plan.name = plan'.name
  answers : plan.Respects → ∀ (limit : Nat) (history history' : List Request),
    Condition.Identified (history.flatMap Request.conditions ++ plan.conditions) →
    Condition.Identified (history'.flatMap Request.conditions ++ plan'.conditions) →
    ((Session.start limit).run history).facts = ((Session.start limit).run history').facts →
    ∀ visits visits', SameAnswer (((Session.start limit).run history).evaluate plan visits).1
      (((Session.start limit).run history').evaluate plan' visits').1

/-- Plans are interchangeable if they find the same without partitions. -/
theorem interchangeable_of_derive {plan plan' : Plan} (name : plan.name = plan'.name)
    (respects : plan.Respects → plan'.Respects)
    (derive : ∀ facts limit, plan.derive .afresh facts limit = plan'.derive .afresh facts limit) :
    plan.Interchangeable plan' := by
  refine ⟨name, fun hplan limit history history' identified identified' facts visits visits' => ?_⟩
  -- each store is sound for the plan that comes next, so each answer follows from the facts
  have limits := Session.maxBindings_run (Session.start limit) history
  have limits' := Session.maxBindings_run (Session.start limit) history'
  obtain ⟨collectorsOf, sound, own⟩ := Session.sound_after limit identified
  obtain ⟨collectorsOf', sound', own'⟩ := Session.sound_after limit identified'
  generalize (Session.start limit).run history = session at limits sound facts
  generalize (Session.start limit).run history' = session' at limits' sound' facts
  have found := (plan.evaluate_recomputes own hplan visits session.facts session.maxBindings _
    sound).1
  have found' := (plan'.evaluate_recomputes own' (respects hplan) visits' session'.facts
    session'.maxBindings _ sound').1
  refine .of_map_eq (found.trans ?_)
  rw [derive, facts, limits, ← limits']
  exact found'.symm

/-- **Numbers do not matter.**  A plan under two renamings. -/
theorem interchangeable_rename (ρ' : Renaming) :
    (plan.rename ρ).Interchangeable (plan.rename ρ') := by
  refine interchangeable_of_derive rfl (fun h => ?_) fun facts limit => ?_
  · exact (plan.respects_rename ρ').2 ((plan.respects_rename ρ).1 h)
  · rw [derive_rename, derive_rename]

end Plan

end MatchAlgebra
