import MatchAlgebra.Algebra.Chain
import MatchAlgebra.Plan.Condition

/-!
# Building with fresh names

Building an expression makes three kinds of things that must be new: variables, conditions and
nodes of logs.  A supply says which numbers are still free, and a build is a computation that draws
from it.  The supply outlives an error, so it can be said what a failed build has used up.
-/

namespace MatchAlgebra

/-- Which numbers are still free.

`idOf` lists the ids for the conditions of this build in the order in which they are drawn.  Builds
that run side by side draw from one counter, so the ids that one of them gets may have gaps. -/
structure Supply where
  nextScope : Nat := 1
  /-- how many variables the factory of a scope has made -/
  created : Nat → Nat := fun _ => 0
  idOf : Nat → Nat := (· + 1)
  /-- how many ids have been drawn -/
  drawn : Nat := 0
  nextNode : Nat := 0
  idOf_injective : ∀ m n, idOf m = idOf n → m = n := by intro m n h; exact Nat.succ.inj h

abbrev Build := ExceptT PlanError (StateM Supply)

/-- The conditions on which a slot depends, in order. -/
abbrev Log := Chain Condition

/-- The source of the variables of one scope. -/
structure Factory where
  scope : Nat
  deriving DecidableEq

/-- Makes a factory with a scope of its own. -/
def newFactory : Build Factory :=
  modifyGet fun supply => (⟨supply.nextScope⟩, { supply with nextScope := supply.nextScope + 1 })

namespace Factory

/-- Makes a variable named by the base and its number in the factory: `shift_1`, `shift_2`. -/
def create (factory : Factory) (base : String) (type : VariableType) : Build Variable :=
  modifyGet fun supply =>
    let index := supply.created factory.scope + 1
    let created := fun scope => if scope = factory.scope then index else supply.created scope
    (⟨⟨factory.scope, index⟩, s!"{base}_{index}", type⟩, { supply with created })

end Factory

/-- Draws the id of a new condition. -/
def drawId : Build Nat :=
  modifyGet fun supply => (supply.idOf supply.drawn, { supply with drawn := supply.drawn + 1 })

def newStep (step : Step) : Build Condition := do
  let id ← drawId
  return .step id step

def newGroup (grouping : Grouping) (input : List Condition) : Build Condition := do
  let id ← drawId
  return .group id grouping input

/-- What a check that draws nothing gives. -/
def check {α : Type} (result : Except PlanError α) : Build α := ExceptT.mk (pure result)

namespace Log

/-- Appends a condition at a new node. -/
def append (log : Log) (c : Condition) : Build Log :=
  modifyGet fun supply =>
    (Chain.append log supply.nextNode c, { supply with nextNode := supply.nextNode + 1 })

/-- Makes conditions of steps one after the other and appends them. -/
def appendSteps : Log → List Step → Build Log
  | log, [] => pure log
  | log, step :: steps => do
    let c ← newStep step
    let log ← append log c
    appendSteps log steps

def union (logs : List Log) : Build Log :=
  modifyGet fun supply =>
    let (log, nextNode) := Chain.union logs supply.nextNode
    (log, { supply with nextNode })

/-- A log of new nodes with the given conditions. -/
def ofList (conditions : List Condition) : Build Log :=
  modifyGet fun supply =>
    let (log, nextNode) := Chain.ofList conditions supply.nextNode
    (log, { supply with nextNode })

/-- The conditions with their ids, oldest first. -/
def label (log : Log) : String := Listing.bracketed (log.oldestFirst.map Condition.label)

end Log

end MatchAlgebra
