import MatchAlgebra.Algebra.Expression
import MatchAlgebra.Settings.Basic
import MatchAlgebra.Text.Quoted

/-!
# Constraint sets

A constraint is a name and a way to build its plan.  Compiling a set builds every plan with a
factory of its own, so that no two builds share a variable, and gives the plans in the order of the
constraints, or else the error of the first constraint that fails.

The builds can run one after the other on one supply (`compile`) or side by side, each on the share
of the numbers that it happens to draw (`compileSeparately`).
-/

namespace MatchAlgebra

structure Constraint where
  name : String
  build : Factory → Build Plan

abbrev ConstraintSet := List Constraint

/-- Builds the plan under the name of its constraint and checks its bindings if that is wanted. -/
def Constraint.compile (settings : CompilerSettings) (constraint : Constraint) : Build Plan := do
  let factory ← newFactory
  let plan ← constraint.build factory
  let named := { plan with name := some constraint.name }
  if settings.verifyPlans then check named.verify
  return named

/-- All results, or the first error among them. -/
def allOrFirstError {α : Type} : List (Except PlanError α) → Except PlanError (List α)
  | [] => .ok []
  | .error e :: _ => .error e
  | .ok a :: rest => (allOrFirstError rest).map (a :: ·)

namespace ConstraintSet

def names (set : ConstraintSet) : List String := set.map (·.name)

def text (set : ConstraintSet) : String := Listing.bracketed (set.names.map Quoted.encode)

/-- Every build in turn, also after one has failed. -/
def results (settings : CompilerSettings) :
    ConstraintSet → StateM Supply (List (Except PlanError Plan))
  | [] => return []
  | constraint :: rest => do
    let result ← (constraint.compile settings).run
    let others ← results settings rest
    return result :: others

def compile (settings : CompilerSettings) (set : ConstraintSet) (supply : Supply) :
    Except PlanError (List Plan) :=
  allOrFirstError (set.results settings |>.run supply).1

/-- Every build on a supply of its own. -/
def compileSeparately (settings : CompilerSettings) (builds : List (Constraint × Supply)) :
    Except PlanError (List Plan) :=
  allOrFirstError (builds.map fun (constraint, supply) =>
    ((constraint.compile settings).run.run supply).1)

end ConstraintSet

/-- The first of the plans under a name. -/
def findPlan? (plans : List Plan) (name : String) : Option Plan :=
  plans.find? fun plan => plan.name = some name

end MatchAlgebra
