import MatchAlgebra.Plan.Condition
import MatchAlgebra.Weight

/-!
# Plans

A plan is a list of conditions, the variables whose values make up a match, and a weigher.  Its
conditions are met in order, so each may read only what those before it bind; `verify` checks that,
in the inputs of groupings too.
-/

namespace MatchAlgebra

structure Plan where
  name : Option String
  conditions : List Condition
  visible : List Variable
  weigher : Weigher

namespace Plan

def degree (plan : Plan) : Nat := plan.visible.length

end Plan

/-! ## Verification of bindings -/

/-- Fails at the first of the variables that is not bound. -/
def requireBound (bound : List Variable) (position : Nat) (wanted : List Variable) :
    Except PlanError Unit :=
  match wanted.find? (!bound.contains ·) with
  | some v => .error (.unboundVariable v.name position)
  | none => .ok ()

namespace Condition

mutual

/-- Checks a condition after others that bind the given variables, and gives the variables bound
after it.  The input of a grouping starts anew, and must bind all that the grouping reads of it. -/
def verify (bound : List Variable) (position : Nat) :
    Condition → Except PlanError (List Variable)
  | .step _ s => do
    requireBound bound position s.reads
    return s.binds ++ bound
  | .group _ grouping input => do
    let inner ← verifyAll [] 0 input
    requireBound inner position grouping.readsInside
    return grouping.binds ++ bound

/-- Checks conditions in order, the first of them at the given position. -/
def verifyAll (bound : List Variable) (position : Nat) :
    List Condition → Except PlanError (List Variable)
  | [] => return bound
  | c :: cs => do
    let bound ← c.verify bound position
    verifyAll bound (position + 1) cs

end

end Condition

namespace Plan

/-- Every condition reads only what is bound before it, and every visible variable is bound in the
end. -/
def verify (plan : Plan) : Except PlanError Unit := do
  let bound ← Condition.verifyAll [] 0 plan.conditions
  requireBound bound plan.conditions.length plan.visible

end Plan

end MatchAlgebra
