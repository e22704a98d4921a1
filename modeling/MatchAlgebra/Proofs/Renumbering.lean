import MatchAlgebra.Proofs.Groups
import MatchAlgebra.Proofs.Renaming
import MatchAlgebra.Proofs.Twins

/-!
# Building on other numbers

Builds from two supplies draw different numbers, but as many of them and in the same order, since a
build only asks whether numbers are equal.  So a build with a factory of its own makes from `start`
what it makes from numbers that count from zero, with other numbers in their place:

    Twin (start.Follows origin) (fun e e' => e' = e.rename start.numbering)
      (l.join o joiners) ((l.rename start.numbering).join (o.rename start.numbering) joiners)
                                                                    (Expression.join_renumbers)

and so for every operation of the algebra, whether it succeeds or fails.
-/

namespace MatchAlgebra

/-! ## Chains -/

namespace Chain

variable {α β : Type} (f : α → β) (g : Nat → Nat)

/-- Other elements at other nodes. -/
def relabel : Chain α → Chain β
  | .empty => .empty
  | .link previous node length last => .link previous.relabel (g node) length (f last)

theorem length_relabel (c : Chain α) : (c.relabel f g).length = c.length := by
  cases c <;> rfl

theorem node?_relabel (c : Chain α) : (c.relabel f g).node? = c.node?.map g := by
  cases c <;> rfl

theorem newestFirst_relabel (c : Chain α) :
    (c.relabel f g).newestFirst = c.newestFirst.map f := by
  induction c with
  | empty => rfl
  | link previous node length last ih => rw [relabel, newestFirst, newestFirst, ih, List.map_cons]

theorem oldestFirst_relabel (c : Chain α) :
    (c.relabel f g).oldestFirst = c.oldestFirst.map f := by
  rw [oldestFirst, newestFirst_relabel, ← List.map_reverse, oldestFirst]

theorem append_relabel (c : Chain α) (node : Nat) (a : α) :
    (c.relabel f g).append (g node) (f a) = (c.append node a).relabel f g := by
  rw [append, append, relabel, length_relabel]

theorem beginning_relabel (target : Nat) (c : Chain α) :
    (c.relabel f g).beginning target = (c.beginning target).relabel f g := by
  induction c with
  | empty => rfl
  | link previous node length last ih =>
    rw [relabel, beginning, beginning, ih]
    split <;> rfl

variable {f g} (injective : Function.Injective g)
include injective

theorem grownFrom_relabel (c start : Chain α) :
    (c.relabel f g).grownFrom (start.relabel f g) = c.grownFrom start := by
  rw [grownFrom, grownFrom, length_relabel, beginning_relabel, node?_relabel, node?_relabel,
    Bool.eq_iff_iff, beq_iff_eq, beq_iff_eq]
  exact (Option.map_injective injective).eq_iff

variable [BEq α] [BEq β] (beq : ∀ a b : α, (f a == f b) = (a == b))
  (next : ∀ n, g (n + 1) = g n + 1)

omit injective [BEq α] [BEq β] in
/-- A chain under construction, with other elements at other nodes. -/
def Growth.relabel (f : α → β) (g : Nat → Nat) (growth : Growth α) : Growth β :=
  ⟨growth.chain.relabel f g, growth.seen.map f, g growth.next⟩

omit injective in
include beq next in
theorem add_relabel (growth : Growth α) (a : α) :
    (growth.relabel f g).add (f a) = (growth.add a).relabel f g := by
  rw [Growth.add, Growth.add]
  show (if (growth.seen.map f).contains (f a) then _ else _) = _
  rw [contains_map beq]
  split
  · rfl
  · rw [Growth.relabel, Growth.relabel, next, ← append_relabel]
    rfl

omit injective in
include beq next in
theorem foldl_add_relabel (growth : Growth α) (as : List α) :
    (as.map f).foldl Growth.add (growth.relabel f g) =
      (as.foldl Growth.add growth).relabel f g := by
  induction as generalizing growth with
  | nil => rfl
  | cons a as ih => rw [List.map_cons, List.foldl_cons, List.foldl_cons, add_relabel beq next, ih]

include beq next in
theorem merge_relabel (growth : Growth α) (c : Chain α) :
    (growth.relabel f g).merge (c.relabel f g) = (growth.merge c).relabel f g := by
  rw [Growth.merge, Growth.merge]
  show (if (c.relabel f g).grownFrom (growth.chain.relabel f g) then _
    else if (growth.chain.relabel f g).grownFrom (c.relabel f g) then _ else _) = _
  rw [grownFrom_relabel injective, grownFrom_relabel injective]
  split
  · have seen : (c.relabel f g).newestFirst.take ((c.relabel f g).length -
          (growth.chain.relabel f g).length) ++ growth.seen.map f =
        (c.newestFirst.take (c.length - growth.chain.length) ++ growth.seen).map f := by
      rw [newestFirst_relabel, length_relabel, length_relabel, List.map_append, List.map_take]
    exact congrArg (Growth.mk _ · _) seen
  · split
    · rfl
    · rw [oldestFirst_relabel]
      exact foldl_add_relabel beq next growth c.oldestFirst

include beq next in
/-- A union asks whether elements and nodes are equal, and draws nodes one after the other. -/
theorem union_relabel (cs : List (Chain α)) (n : Nat) :
    union (cs.map (relabel f g)) (g n) = ((union cs n).1.relabel f g, g (union cs n).2) := by
  have merged : ∀ growth : Growth α,
      (cs.map (relabel f g)).foldl Growth.merge (growth.relabel f g) =
        (cs.foldl Growth.merge growth).relabel f g := by
    induction cs with
    | nil => exact fun _ => rfl
    | cons c cs ih =>
      intro growth
      rw [List.map_cons, List.foldl_cons, List.foldl_cons, merge_relabel injective beq next, ih]
  have last := merged ⟨.empty, [], n⟩
  exact congrArg (fun growth : Growth β => (growth.chain, growth.next)) last

omit f g injective [BEq β] beq next in
/-- A union draws no node twice. -/
theorem le_union_next (cs : List (Chain α)) (n : Nat) : n ≤ (union cs n).2 := by
  have added : ∀ (as : List α) (growth : Growth α),
      growth.next ≤ (as.foldl Growth.add growth).next := by
    intro as
    induction as with
    | nil => exact fun _ => Nat.le_refl _
    | cons a as ih =>
      intro growth
      refine Nat.le_trans ?_ (ih (growth.add a))
      rw [Growth.add]
      split
      · exact Nat.le_refl _
      · exact Nat.le_succ _
  have merged : ∀ growth : Growth α, growth.next ≤ (cs.foldl Growth.merge growth).next := by
    induction cs with
    | nil => exact fun _ => Nat.le_refl _
    | cons c cs ih =>
      intro growth
      refine Nat.le_trans ?_ (ih (growth.merge c))
      rw [Growth.merge]
      split
      · exact Nat.le_refl _
      · split
        · exact Nat.le_refl _
        · exact added _ growth
  exact merged ⟨.empty, [], n⟩

end Chain

/-! ## Expressions -/

def Log.rename (ρ : Renaming) (log : Log) : Log := Chain.relabel (Condition.rename ρ) ρ.node log

def Slot.rename (slot : Slot) (ρ : Renaming) : Slot :=
  ⟨slot.bound.rename ρ, Log.rename ρ slot.log⟩

def Expression.rename (e : Expression) (ρ : Renaming) : Expression :=
  ⟨e.front.map (·.rename ρ), e.last.rename ρ,
    ⟨e.visible.map (·.rename ρ), Log.rename ρ e.log⟩⟩

namespace Expression

variable (ρ : Renaming) (e : Expression)

theorem slots_rename : (e.rename ρ).slots = e.slots.map (·.rename ρ) := by
  rw [slots, slots, rename, List.map_append]
  rfl

theorem degree_rename : (e.rename ρ).degree = e.degree := by
  rw [degree, degree, slots_rename, List.length_map]

theorem visible_rename : (e.rename ρ).visible = e.visible.map (·.rename ρ) := rfl

theorem logs_rename :
    (e.rename ρ).slots.map (·.log) = (e.slots.map (·.log)).map (Log.rename ρ) := by
  rw [slots_rename, List.map_map, List.map_map]
  rfl

theorem ofSlots_rename (slots : List Slot) :
    ofSlots (slots.map (·.rename ρ)) = (ofSlots slots).map (·.rename ρ) := by
  rw [ofSlots, ofSlots, List.getLast?_map, List.length_map]
  cases slots.getLast? with
  | none => rfl
  | some last =>
    show (if slots.length ≤ maxDegree then _ else _) = (if slots.length ≤ maxDegree then _ else _ :
      Except PlanError Expression).map _
    split
    · rw [← List.map_dropLast, List.map_map]
      show _ = Except.ok (rename _ ρ)
      rw [rename, visible, List.map_map]
      rfl
    · rfl

theorem sharedVariable?_rename (left right : Expression) :
    (left.rename ρ).sharedVariable? (right.rename ρ) =
      (left.sharedVariable? right).map (·.rename ρ) := by
  have binds : ∀ log : Log, (Log.rename ρ log).newestFirst.flatMap Condition.binds =
      (log.newestFirst.flatMap Condition.binds).map (·.rename ρ) := by
    intro log
    rw [Log.rename, Chain.newestFirst_relabel, List.flatMap_map, List.map_flatMap]
    exact List.flatMap_congr fun c _ => c.binds_rename ρ
  rw [sharedVariable?, sharedVariable?, visible_rename]
  show (_ :: (Log.rename ρ right.last.log).newestFirst.flatMap Condition.binds).find?
    ((_ ++ (Log.rename ρ left.last.log).newestFirst.flatMap Condition.binds).contains ·) = _
  rw [binds, binds, ← List.map_append]
  show ((right.last.bound :: right.last.log.newestFirst.flatMap Condition.binds).map
    (·.rename ρ)).find? _ = _
  rw [List.find?_map]
  congr 2
  funext v
  exact Variable.contains_rename ρ _ v

theorem joinable_rename (left right : Expression) (joiners : List Joiner) :
    (left.rename ρ).joinable (right.rename ρ) joiners = left.joinable right joiners := by
  rw [joinable, joinable, degree_rename, degree_rename, sharedVariable?_rename]
  cases left.sharedVariable? right <;> rfl

theorem joinSteps_rename (inputs : List Variable) (target : Variable) (rule : JoinRule) :
    joinSteps (inputs.map (·.rename ρ)) (target.rename ρ) rule =
      (joinSteps inputs target rule).map (·.rename ρ) := by
  rw [joinSteps, joinSteps, List.map_append, List.map_map, List.map_map, List.length_map]
  congr 1
  refine List.map_congr_left fun filter _ => ?_
  rw [Function.comp, Step.rename, List.map_append]
  rfl

theorem toPlan_rename (weigher : Weigher) :
    (e.rename ρ).toPlan weigher = (e.toPlan weigher).rename ρ := by
  rw [toPlan, toPlan, visible_rename, Plan.rename]
  show Plan.mk none (Log.rename ρ e.log).oldestFirst _ _ = _
  rw [Log.rename, Chain.oldestFirst_relabel]

end Expression

/-! ## Supplies -/

namespace Supply

/-- No factory that is still to be made has made any variable. -/
def Unused (s : Supply) : Prop := ∀ scope, s.nextScope ≤ scope → s.created scope = 0

/-- Nothing has been drawn, and the numbers count from zero. -/
def blank : Supply := ⟨0, fun _ => 0, id, 0, 0, fun _ _ h => h⟩

/-- The numbers that a supply gives when `blank` gives zero, one, two and so on. -/
def numbering (start : Supply) : Renaming where
  scope k := start.nextScope + k
  condition k := start.idOf (start.drawn + k)
  node k := start.nextNode + k
  scope_injective _ _ h := Nat.add_left_cancel h
  condition_injective _ _ h := Nat.add_left_cancel (start.idOf_injective _ _ h)
  node_injective _ _ h := Nat.add_left_cancel h

/-- From `start` the supply has been drawn from as `plain` has been from `blank`, after each has
made one factory.  The latter has gone on from `origin`. -/
structure Follows (start origin plain s : Supply) : Prop where
  plain_ids : plain.idOf = id
  onward : origin.Onward plain
  idOf : s.idOf = start.idOf
  drawn : s.drawn = start.drawn + plain.drawn
  nextNode : s.nextNode = start.nextNode + plain.nextNode
  nextScope : s.nextScope = start.nextScope + 1
  created : s.created start.nextScope = plain.created 0
  unused : s.Unused

namespace Follows

variable {start origin plain s : Supply} (h : start.Follows origin plain s)
include h

/-- Both factories make a variable. -/
theorem create : start.Follows origin
    { plain with
      created := fun scope => if scope = 0 then plain.created 0 + 1 else plain.created scope }
    { s with
      created := fun scope => if scope = start.nextScope then s.created start.nextScope + 1
        else s.created scope } := by
  refine { h with onward := ⟨h.onward.idOf, h.onward.drawn, h.onward.nextNode⟩, created := ?_,
                  unused := ?_ }
  · dsimp only
    rw [if_pos rfl, if_pos rfl, h.created]
  · intro scope above
    have above : s.nextScope ≤ scope := above
    have made := h.nextScope
    by_cases own : scope = start.nextScope
    · omega
    · dsimp only
      rw [if_neg own, h.unused scope above]

/-- Both draw an id. -/
theorem draw : start.Follows origin { plain with drawn := plain.drawn + 1 }
    { s with drawn := s.drawn + 1 } := by
  have drawn := h.drawn
  have onward := h.onward.drawn
  refine { h with onward := ⟨h.onward.idOf, ?_, h.onward.nextNode⟩, drawn := ?_ }
  · dsimp only
    omega
  · dsimp only
    omega

/-- Both make the same number of nodes. -/
theorem link {n n' : Nat} (later : plain.nextNode ≤ n) (same : n' = start.nextNode + n) :
    start.Follows origin { plain with nextNode := n } { s with nextNode := n' } := by
  have onward := h.onward.nextNode
  refine { h with onward := ⟨h.onward.idOf, h.onward.drawn, ?_⟩, nextNode := same }
  dsimp only
  omega

end Follows

end Supply

/-- The builds come out alike, with corresponding numbers. -/
abbrev Build.Renumbers {α β : Type} (start origin : Supply) (R : α → β → Prop) (m : Build α)
    (m' : Build β) : Prop :=
  MatchAlgebra.Twin (start.Follows origin) R m m'

section
variable (start origin : Supply)

theorem create_renumbers (base : String) (type : VariableType) :
    Build.Renumbers start origin (fun v w => w = v.rename start.numbering)
      (Factory.create ⟨0⟩ base type) (Factory.create ⟨start.nextScope⟩ base type) := by
  intro plain s h
  refine ⟨.ok ?_, h.create⟩
  dsimp only
  rw [h.created]
  rfl

theorem drawId_renumbers :
    Build.Renumbers start origin (fun id id' => id' = start.numbering.condition id) drawId
      drawId := by
  intro plain s h
  refine ⟨.ok ?_, h.draw⟩
  show s.idOf s.drawn = start.idOf (start.drawn + plain.idOf plain.drawn)
  rw [h.plain_ids, h.idOf, h.drawn]
  rfl

theorem append_renumbers (log : Log) (c : Condition) :
    Build.Renumbers start origin (fun log log' => log' = Log.rename start.numbering log)
      (Log.append log c)
      (Log.append (Log.rename start.numbering log) (c.rename start.numbering)) := by
  intro plain s h
  have node := h.nextNode
  refine ⟨.ok ?_, h.link (Nat.le_succ _) (by omega)⟩
  show Chain.append (Log.rename start.numbering log) s.nextNode (c.rename start.numbering) = _
  rw [node]
  exact Chain.append_relabel _ _ log plain.nextNode c

theorem union_renumbers (logs : List Log) :
    Build.Renumbers start origin (fun log log' => log' = Log.rename start.numbering log)
      (Log.union logs) (Log.union (logs.map (Log.rename start.numbering))) := by
  intro plain s h
  have unions : Chain.union (logs.map (Log.rename start.numbering)) s.nextNode =
      (Log.rename start.numbering (Chain.union logs plain.nextNode).1,
        start.nextNode + (Chain.union logs plain.nextNode).2) := by
    rw [h.nextNode]
    exact Chain.union_relabel start.numbering.node_injective
      (Condition.beq_rename start.numbering) (fun _ => rfl) logs plain.nextNode
  refine ⟨.ok ?_, h.link (Chain.le_union_next logs plain.nextNode) ?_⟩
  · exact congrArg Prod.fst unions
  · exact congrArg Prod.snd unions

variable {start origin}

theorem check_renumbers_self {α : Type} (r : Except PlanError α) :
    Build.Renumbers start origin (· = ·) (check r) (check r) :=
  .ofExcept (.of_eq rfl)

theorem check_renumbers {α β : Type} {R : α → β → Prop} {r : Except PlanError α}
    {r' : Except PlanError β} {f : α → β} (h : r' = r.map f) (hf : ∀ a, R a (f a)) :
    Build.Renumbers start origin R (check r) (check r') := by
  refine .ofExcept ?_
  rw [h]
  cases r with
  | error e => exact .error e
  | ok a => exact .ok (hf a)

theorem newStep_renumbers (step : Step) :
    Build.Renumbers start origin (fun c c' => c' = c.rename start.numbering) (newStep step)
      (newStep (step.rename start.numbering)) := by
  refine Twin.bind (drawId_renumbers start origin) ?_
  rintro id _ rfl -
  exact .pure rfl

theorem newGroup_renumbers (grouping : Grouping) (input : List Condition) :
    Build.Renumbers start origin (fun c c' => c' = c.rename start.numbering)
      (newGroup grouping input)
      (newGroup (grouping.rename start.numbering)
        (input.map (Condition.rename start.numbering))) := by
  refine Twin.bind (drawId_renumbers start origin) ?_
  rintro id _ rfl -
  refine .pure ?_
  rw [Condition.rename, Condition.renameAll_eq_map]

theorem appendSteps_renumbers (log : Log) (steps : List Step) :
    Build.Renumbers start origin (fun log log' => log' = Log.rename start.numbering log)
      (Log.appendSteps log steps)
      (Log.appendSteps (Log.rename start.numbering log)
        (steps.map (·.rename start.numbering))) := by
  induction steps generalizing log with
  | nil => exact .pure rfl
  | cons step steps ih =>
    refine Twin.bind (newStep_renumbers step) ?_
    rintro c _ rfl -
    refine Twin.bind (append_renumbers start origin log c) ?_
    rintro grown _ rfl -
    exact ih grown

/-! ## Operations -/

namespace Expression

/-- The second expression is the first with its numbers replaced. -/
abbrev Renumbered (start : Supply) (e e' : Expression) : Prop := e' = e.rename start.numbering

theorem forEach_renumbers (type : FactType) :
    Build.Renumbers start origin (Renumbered start) (forEach ⟨0⟩ type)
      (forEach ⟨start.nextScope⟩ type) := by
  refine Twin.bind (create_renumbers start origin _ _) ?_
  rintro bound _ rfl -
  refine Twin.bind (appendSteps_renumbers .empty [.pattern bound type]) ?_
  rintro log _ rfl -
  exact .pure rfl

theorem require_renumbers (e : Expression) (step : Step) :
    Build.Renumbers start origin (Renumbered start) (e.require step)
      ((e.rename start.numbering).require (step.rename start.numbering)) := by
  refine Twin.bind (appendSteps_renumbers e.last.log [step]) ?_
  rintro log _ rfl -
  exact .pure rfl

theorem filter_renumbers (e : Expression) (predicate : TuplePredicate) :
    Build.Renumbers start origin (Renumbered start) (e.filter predicate)
      ((e.rename start.numbering).filter predicate) := by
  rw [filter, filter, visible_rename]
  exact require_renumbers e (.filter e.visible predicate)

theorem map_renumbers (e : Expression) (function : TupleFunction) :
    Build.Renumbers start origin (Renumbered start) (e.map ⟨0⟩ function)
      ((e.rename start.numbering).map ⟨start.nextScope⟩ function) := by
  rw [map, map, visible_rename, logs_rename]
  refine Twin.bind (create_renumbers start origin _ _) ?_
  rintro bound _ rfl -
  refine Twin.bind (union_renumbers start origin _) ?_
  rintro combined _ rfl -
  refine Twin.bind (appendSteps_renumbers combined [.bind bound e.visible function]) ?_
  rintro log _ rfl -
  exact .pure rfl

theorem checkExistence_renumbers (e : Expression) (quantifier : Quantifier) (type : FactType)
    (joiners : List Joiner) :
    Build.Renumbers start origin (Renumbered start)
      (e.checkExistence ⟨0⟩ quantifier type joiners)
      ((e.rename start.numbering).checkExistence ⟨start.nextScope⟩ quantifier type joiners) := by
  rw [checkExistence, checkExistence, visible_rename]
  refine Twin.bind (check_renumbers_self _) ?_
  rintro rule _ rfl -
  refine Twin.bind (create_renumbers start origin _ _) ?_
  rintro candidate _ rfl -
  exact require_renumbers e (.existence ⟨quantifier, candidate, type, e.visible, rule⟩)

theorem join_renumbers (left right : Expression) (joiners : List Joiner) :
    Build.Renumbers start origin (Renumbered start) (left.join right joiners)
      ((left.rename start.numbering).join (right.rename start.numbering) joiners) := by
  rw [join, join, visible_rename, joinable_rename]
  refine Twin.bind (check_renumbers_self _) ?_
  rintro rule _ rfl -
  refine Twin.bind (union_renumbers start origin [left.last.log, right.last.log]) ?_
  rintro both _ rfl -
  refine Twin.bind (R := fun log log' => log' = Log.rename start.numbering log) ?_ ?_
  · show Build.Renumbers start origin _ _ (Log.appendSteps _ (joinSteps _
      (right.last.bound.rename start.numbering) rule))
    rw [joinSteps_rename]
    exact appendSteps_renumbers both _
  · rintro log _ rfl -
    refine check_renumbers (f := (·.rename start.numbering)) ?_ fun _ => rfl
    rw [← ofSlots_rename, slots_rename, List.map_append]
    rfl

/-! ### Groupings -/

theorem sourceLog_renumbers (collectors : List Collector) (inputs : List Variable) (log : Log) :
    Build.Renumbers start origin
      (fun p p' : Option Variable × Log =>
        p' = (p.1.map (·.rename start.numbering), Log.rename start.numbering p.2))
      (sourceLog ⟨0⟩ collectors inputs log)
      (sourceLog ⟨start.nextScope⟩ collectors (inputs.map (·.rename start.numbering))
        (Log.rename start.numbering log)) := by
  unfold sourceLog bindSource
  rw [List.length_map]
  split
  · exact .pure rfl
  · refine Twin.bind (R := fun (p p' : Variable × Log) =>
      p' = (p.1.rename start.numbering, Log.rename start.numbering p.2)) ?_ ?_
    · refine Twin.bind (create_renumbers start origin _ _) ?_
      rintro source _ rfl -
      refine Twin.bind (appendSteps_renumbers log [.bind source inputs wholeTuple]) ?_
      rintro input _ rfl -
      exact .pure rfl
    · rintro ⟨source, input⟩ _ rfl -
      exact .pure rfl

theorem groupKey_renumbers (keys : List TupleFunction) :
    Build.Renumbers start origin
      (fun key key' : Option GroupKey => key' = key.map (·.rename start.numbering))
      (groupKey ⟨0⟩ keys) (groupKey ⟨start.nextScope⟩ keys) := by
  unfold groupKey
  split
  · exact .pure rfl
  · refine Twin.bind (create_renumbers start origin _ _) ?_
    rintro bound _ rfl -
    exact .pure rfl
  · refine Twin.bind (create_renumbers start origin _ _) ?_
    rintro bound _ rfl -
    exact .pure rfl

theorem collectorOutputs_renumbers (collectors : List Collector) :
    Build.Renumbers start origin
      (fun outputs outputs' : List CollectorOutput =>
        outputs' = outputs.map (·.rename start.numbering))
      (collectorOutputs ⟨0⟩ collectors) (collectorOutputs ⟨start.nextScope⟩ collectors) := by
  unfold collectorOutputs
  induction collectors with
  | nil => exact .pure rfl
  | cons collector collectors ih =>
    rw [List.mapM_cons, List.mapM_cons]
    refine Twin.bind (R := fun output output' : CollectorOutput =>
      output' = output.rename start.numbering) ?_ ?_
    · refine Twin.bind (create_renumbers start origin _ _) ?_
      rintro bound _ rfl -
      exact .pure rfl
    · rintro output _ rfl -
      refine Twin.bind ih ?_
      rintro outputs _ rfl -
      exact .pure rfl

theorem bindComponents_renumbers (composite : Variable) (count : Nat) :
    Build.Renumbers start origin
      (fun pairs pairs' : List (Variable × Condition) => pairs' = pairs.map fun p =>
        (p.1.rename start.numbering, p.2.rename start.numbering))
      (bindComponents ⟨0⟩ composite count)
      (bindComponents ⟨start.nextScope⟩ (composite.rename start.numbering) count) := by
  unfold bindComponents
  induction List.range count with
  | nil => exact .pure rfl
  | cons index indices ih =>
    rw [List.mapM_cons, List.mapM_cons]
    refine Twin.bind (R := fun p p' : Variable × Condition =>
      p' = (p.1.rename start.numbering, p.2.rename start.numbering)) ?_ ?_
    · refine Twin.bind (create_renumbers start origin _ _) ?_
      rintro bound _ rfl -
      refine Twin.bind (newStep_renumbers (.bind bound [composite] (keyComponent index))) ?_
      rintro c _ rfl -
      exact .pure rfl
    · rintro p _ rfl -
      refine Twin.bind ih ?_
      rintro pairs _ rfl -
      exact .pure rfl

/-- A log and slots with their numbers replaced. -/
abbrev RenumberedSlots (start : Supply) (p p' : Log × List Slot) : Prop :=
  p' = (Log.rename start.numbering p.1, p.2.map (·.rename start.numbering))

theorem componentSlots_renumbers (log : Log) (pairs : List (Variable × Condition)) :
    Build.Renumbers start origin (RenumberedSlots start) (componentSlots log pairs)
      (componentSlots (Log.rename start.numbering log)
        (pairs.map fun p => (p.1.rename start.numbering, p.2.rename start.numbering))) := by
  induction pairs generalizing log with
  | nil => exact .pure rfl
  | cons p pairs ih =>
    obtain ⟨bound, c⟩ := p
    refine Twin.bind (append_renumbers start origin log c) ?_
    rintro grown _ rfl -
    refine Twin.bind (ih grown) ?_
    rintro ⟨full, slots⟩ _ rfl -
    exact .pure rfl

theorem keySlots_renumbers (log : Log) (key : Option GroupKey) (count : Nat) :
    Build.Renumbers start origin (RenumberedSlots start) (keySlots ⟨0⟩ log key count)
      (keySlots ⟨start.nextScope⟩ (Log.rename start.numbering log)
        (key.map (·.rename start.numbering)) count) := by
  cases key with
  | none => exact .pure rfl
  | some key =>
    rw [Option.map_some, keySlots, keySlots]
    split
    · exact .pure rfl
    · refine Twin.bind (bindComponents_renumbers key.bound count) ?_
      rintro pairs _ rfl -
      exact componentSlots_renumbers log pairs

theorem groupBy_renumbers (e : Expression) (request : GroupRequest) :
    Build.Renumbers start origin (Renumbered start) (e.groupBy ⟨0⟩ request)
      ((e.rename start.numbering).groupBy ⟨start.nextScope⟩ request) := by
  rw [groupBy_eq, groupBy_eq, visible_rename, logs_rename]
  refine Twin.bind (check_renumbers_self _) ?_
  rintro _ _ - -
  refine Twin.bind (union_renumbers start origin _) ?_
  rintro combined _ rfl -
  refine Twin.bind (sourceLog_renumbers request.collectors e.visible combined) ?_
  rintro ⟨source, input⟩ _ rfl -
  refine Twin.bind (groupKey_renumbers request.keys) ?_
  rintro key _ rfl -
  refine Twin.bind (collectorOutputs_renumbers request.collectors) ?_
  rintro outputs _ rfl -
  refine Twin.bind (R := fun c c' : Condition => c' = c.rename start.numbering) ?_ ?_
  · rw [show (Log.rename start.numbering input).oldestFirst = _ from
      Chain.oldestFirst_relabel _ _ input]
    exact newGroup_renumbers ⟨e.visible, source, key, outputs⟩ input.oldestFirst
  rintro group _ rfl -
  refine Twin.bind (append_renumbers start origin .empty group) ?_
  rintro log _ rfl -
  refine Twin.bind (keySlots_renumbers log key request.keys.length) ?_
  rintro ⟨full, slots⟩ _ rfl -
  refine check_renumbers (f := (·.rename start.numbering)) ?_ fun _ => rfl
  rw [← ofSlots_rename, List.map_append, List.map_map, List.map_map]
  rfl

end Expression

end

end MatchAlgebra
