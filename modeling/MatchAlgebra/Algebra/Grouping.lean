import MatchAlgebra.Algebra.Expression
import MatchAlgebra.Algebra.GroupRequest

/-!
# Grouping

Grouping turns the tuples of an expression into one tuple per group: the keys, then the results of
the collectors.  Without keys there is one group.  The groups are made from a plan of their own,
which holds all conditions of the expression; if there are collectors it also binds the whole tuple
to one variable, which all of them read.
-/

namespace MatchAlgebra

namespace Expression

/-- Binds the tuple that collectors read at the end of the input plan. -/
def bindSource (factory : Factory) (inputs : List Variable) (input : Log) :
    Build (Variable × Log) := do
  let source ← factory.create "source" (.tuple inputs.length)
  let input ← Log.appendSteps input [.bind source inputs wholeTuple]
  return (source, input)

/-- The key of the groups: none, the only one, or all of them packed. -/
def groupKey (factory : Factory) : List TupleFunction → Build (Option GroupKey)
  | [] => return none
  | [key] => do
    let bound ← factory.create "groupKey" .value
    return some ⟨bound, key⟩
  | keys => do
    let bound ← factory.create "groupKey" (.tuple keys.length)
    return some ⟨bound, keyTuple keys⟩

/-- A variable for the result of each collector. -/
def collectorOutputs (factory : Factory) (collectors : List Collector) :
    Build (List CollectorOutput) :=
  collectors.mapM fun collector => do
    let bound ← factory.create "result" .value
    return ⟨collector, bound⟩

/-- The slots of unpacked components.  Each logs the unpacking of its own component and of those
before it. -/
def componentSlots : Log → List (Variable × Condition) → Build (Log × List Slot)
  | log, [] => return (log, [])
  | log, (bound, c) :: rest => do
    let log ← Log.append log c
    let (full, slots) ← componentSlots log rest
    return (full, ⟨bound, log⟩ :: slots)

/-- The slots of the keys, and the log that the slots after them start from. -/
def keySlots (factory : Factory) (log : Log) (key : Option GroupKey) (count : Nat) :
    Build (Log × List Slot) :=
  match key with
  | none => return (log, [])
  | some key =>
    if count = 1 then return (log, [⟨key.bound, log⟩])
    else do
      let components ← bindComponents factory key.bound count
      componentSlots log components

def groupBy (e : Expression) (factory : Factory) (request : GroupRequest) :
    Build Expression := do
  check request.validate
  let inputs := e.visible
  let combined ← Log.union (e.slots.map (·.log))
  let (source, input) ←
    if request.collectors.isEmpty then pure (none, combined)
    else do
      let (source, input) ← bindSource factory inputs combined
      pure (some source, input)
  let key ← groupKey factory request.keys
  let outputs ← collectorOutputs factory request.collectors
  let group ← newGroup ⟨inputs, source, key, outputs⟩ input.oldestFirst
  let log ← Log.append .empty group
  let (log, keySlots) ← keySlots factory log key request.keys.length
  check (ofSlots (keySlots ++ outputs.map fun output => ⟨output.bound, log⟩))

end Expression

end MatchAlgebra
