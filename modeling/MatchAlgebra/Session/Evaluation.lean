import MatchAlgebra.Plan.Basic
import MatchAlgebra.Session.Partition
import MatchAlgebra.Session.Row

/-!
# Evaluation

A plan is evaluated condition by condition, starting from one row without bindings.  A grouping
evaluates its input in the same way, brings its partitions up to date and joins one row per group to
every row before it.  At every depth the rows must not outnumber the limit.

The partitions of a grouping are kept under the id of its condition.  They are kept even if the
evaluation fails later on.
-/

namespace MatchAlgebra

/-- The partitions of groupings by the ids of their conditions. -/
abbrev GroupStore := Std.TreeMap Nat Partitions

abbrev Evaluation := ExceptT SessionError (StateM GroupStore)

/-- Takes the result of a computation that does not touch the partitions. -/
def Evaluation.ofExcept {α : Type} (result : Except SessionError α) : Evaluation α :=
  ExceptT.mk (pure result)

/-! ## Groupings -/

namespace Grouping

def collectors (grouping : Grouping) : List Collector := grouping.outputs.map (·.collector)

/-- The key and the source tuple of a row; null where the grouping has none. -/
def keyed (grouping : Grouping) (row : Row) : Except SessionError KeyedSource := do
  let key ← match grouping.key with
    | some key => key.function <$> row.read grouping.inputs
    | none => pure .null
  let source ← match grouping.source with
    | some source => row.get source
    | none => pure .null
  return ⟨key, source, row.facts⟩

def keyedAll (grouping : Grouping) : List Row → Except SessionError (List KeyedSource)
  | [] => return []
  | row :: rows => do
    let keyed ← grouping.keyed row
    let rest ← grouping.keyedAll rows
    return keyed :: rest

/-- The row of one group: its key and results, and the facts of all its tuples. -/
def rowOf (grouping : Grouping) (groups : GroupInputs) (key : Value)
    (partition : Partition) : Row :=
  let keyed := match grouping.key with
    | some groupKey => Row.empty.bind groupKey.bound key
    | none => Row.empty
  let bound := (grouping.outputs.zip partition.fused.results).foldl
    (fun row (output, result) => row.bind output.bound result) keyed
  { bound with facts := (groups[key]?.map (·.facts.toList)).getD [] }

/-- Brings the partitions kept under an id up to date and gives the row of each group. -/
def regroup (grouping : Grouping) (tours : Tours) (id : Nat) (rows : List KeyedSource) :
    StateM GroupStore (List Row) :=
  modifyGet fun store =>
    let groups := groupInputs rows
    let partitions := Partitions.reconcile grouping.collectors tours (store.getD id ∅) groups
    (partitions.toList.map fun (key, partition) => grouping.rowOf groups key partition,
      store.insert id partitions)

end Grouping

/-! ## Conditions in order -/

namespace Condition

mutual

def evaluate (visits : Visits) (facts : List Fact) (limit : Nat) (rows : List Row) :
    Condition → Evaluation (List Row)
  | .step _ s => .ofExcept (s.apply facts limit rows)
  | .group id grouping input => do
    let inner ← evaluateAll visits facts limit [Row.empty] input
    let keyed ← .ofExcept (grouping.keyedAll inner)
    let grouped ← grouping.regroup (visits id) id keyed
    .ofExcept (Row.cross limit rows grouped Row.merge)

def evaluateAll (visits : Visits) (facts : List Fact) (limit : Nat) (rows : List Row) :
    List Condition → Evaluation (List Row)
  | [] => return rows
  | c :: cs => do
    let rows ← c.evaluate visits facts limit rows
    evaluateAll visits facts limit rows cs

end

end Condition

/-! ## Matches -/

/-- The values of the visible variables, their weight and the facts they come from. -/
structure Match where
  values : List Value
  weight : Weight
  /-- handles in ascending order, each once -/
  facts : List Nat

namespace Plan

def matchOf (plan : Plan) (row : Row) : Except SessionError Match := do
  let values ← row.read plan.visible
  return ⟨values, plan.weigher.weigh values, HandleSet.ascending row.facts⟩

def matchesOf (plan : Plan) : List Row → Except SessionError (List Match)
  | [] => return []
  | row :: rows => do
    let m ← plan.matchOf row
    let rest ← plan.matchesOf rows
    return m :: rest

def evaluate (plan : Plan) (visits : Visits) (facts : List Fact) (limit : Nat) :
    Evaluation (List Match) := do
  let rows ← Condition.evaluateAll visits facts limit [Row.empty] plan.conditions
  .ofExcept (plan.matchesOf rows)

end Plan

end MatchAlgebra
