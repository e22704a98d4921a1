import MatchAlgebra.Algebra.Supply
import MatchAlgebra.Plan.Basic

/-!
# Expressions

An expression stands for tuples of one to four values, and has a slot for each.  A slot names the
variable and logs the conditions that its value depends on; the log of each slot is grown from the
log of the slot before it, so the last one holds all conditions of the expression.

What a plan needs of an expression, its variables and all of its conditions, stands beside the slots
in a context.  Each operation writes it anew, so as to keep it in step with the slots.

An expression is never changed.  Each operation makes a new one, which shares what it can of the
logs of the old.
-/

namespace MatchAlgebra

structure Slot where
  bound : Variable
  log : Log

namespace Slot

/-- Whether a change to the condition can affect the slot. -/
def dependsOn (slot : Slot) (c : Condition) : Bool := slot.log.contains c

end Slot

/-- The variables of all slots in their order, and the conditions of the last slot. -/
structure Context where
  visible : List Variable
  conditions : Log

/-- At least one slot, and the context. -/
structure Expression where
  front : List Slot
  last : Slot
  context : Context

namespace Expression

def slots (e : Expression) : List Slot := e.front ++ [e.last]

def degree (e : Expression) : Nat := e.slots.length

def visible (e : Expression) : List Variable := e.context.visible

/-- All conditions of the expression. -/
def log (e : Expression) : Log := e.context.conditions

/-- An expression of one slot. -/
def ofSlot (slot : Slot) : Expression := ⟨[], slot, ⟨[slot.bound], slot.log⟩⟩

/-- An expression has at least one slot and at most `maxDegree`. -/
def ofSlots (slots : List Slot) : Except PlanError Expression :=
  match slots.getLast? with
  | some last =>
    if slots.length ≤ maxDegree then .ok ⟨slots.dropLast, last, ⟨slots.map (·.bound), last.log⟩⟩
    else .error (.degreeOverflow .expression slots.length)
  | none => .error (.degreeOverflow .expression 0)

/-! ## Operations on one expression -/

/-- Every fact of a type. -/
def forEach (factory : Factory) (type : FactType) : Build Expression := do
  let bound ← factory.create type.baseName (.fact type)
  let log ← Log.appendSteps .empty [.pattern bound type]
  return ofSlot ⟨bound, log⟩

/-- Adds a condition to the last slot. -/
def require (e : Expression) (step : Step) : Build Expression := do
  let log ← Log.appendSteps e.last.log [step]
  return ⟨e.front, { e.last with log }, { e.context with conditions := log }⟩

/-- Keeps the tuples on which the predicate holds. -/
def filter (e : Expression) (predicate : TuplePredicate) : Build Expression :=
  e.require (.filter e.visible predicate)

/-- One value computed from each tuple.  It depends on the conditions of all slots. -/
def map (e : Expression) (factory : Factory) (function : TupleFunction) : Build Expression := do
  let bound ← factory.create "mapped" .value
  let combined ← Log.union (e.slots.map (·.log))
  let log ← Log.appendSteps combined [.bind bound e.visible function]
  return ofSlot ⟨bound, log⟩

/-- The plan that finds the tuples of the expression and weighs them. -/
def toPlan (e : Expression) (weigher : Weigher) : Plan :=
  ⟨none, e.log.oldestFirst, e.visible, weigher⟩

/-! ## Dependencies -/

/-- The positions of the slots that a change to the condition can affect. -/
def affectedSlots (e : Expression) (c : Condition) : List Nat :=
  (e.slots.zipIdx.filter fun (slot, _) => slot.dependsOn c).map (·.2)

/-- Whether each log was grown from the one before it. -/
def slotsInOrder (e : Expression) : Bool :=
  (e.slots.zip (e.slots.drop 1)).all fun (earlier, later) => later.log.grownFrom earlier.log

end Expression

end MatchAlgebra
