import MatchAlgebra.Joining.Comparison

/-!
# Errors

`PlanError` holds the causes for which a plan cannot be built, `SessionError` those for which a
session refuses a request.  Each has one function that words it.
-/

namespace MatchAlgebra

/-- The largest number of values an expression carries. -/
def maxDegree : Nat := 4

/-- The operations that refuse to grow an expression past `maxDegree`. -/
inductive Operation where
  | groupBy
  | join
  | expression
  deriving DecidableEq

def Operation.name : Operation → String
  | .groupBy => "groupBy"
  | .join => "join"
  | .expression => "expression"

inductive PlanError where
  /-- a joiner that matches all shares its list with others -/
  | matchAllNotAlone (position : Nat) (joiners : List JoinerKind)
  /-- a comparison comes after a filtering joiner -/
  | comparingAfterFiltering (position : Nat) (comparison : Comparison) (filterPosition : Nat)
      (joiners : List JoinerKind)
  | degreeOverflow (operation : Operation) (requested : Nat)
  /-- a grouping has neither keys nor collectors -/
  | emptyGroupBy
  /-- the right side of a join carries more than one value -/
  | joinOperandDegree (degree : Nat)
  /-- both sides of a join bind the same variable -/
  | sharedJoinVariable (name : String)
  /-- a condition reads a variable that none before it binds -/
  | unboundVariable (name : String) (condition : Nat)
  deriving DecidableEq

def PlanError.message : PlanError → String
  | .matchAllNotAlone position joiners =>
    s!"If present, the none joiner must be the only joiner, got {JoinerKind.describe joiners} "
      ++ s!"instead (none joiner at #{position})."
  | .comparingAfterFiltering position comparison filterPosition joiners =>
    s!"Indexing joiner #{position} ({comparison.name}) must not follow a filtering joiner "
      ++ s!"#{filterPosition} ({JoinerKind.filtering.name}) in {JoinerKind.describe joiners}."
  | .degreeOverflow operation requested =>
    s!"{operation.name} would produce {requested} outputs, "
      ++ s!"more than the maximum degree of {maxDegree}"
  | .emptyGroupBy => "groupBy needs at least one key mapping or collector"
  | .joinOperandDegree degree => s!"join operand must have degree 1, got degree {degree}"
  | .sharedJoinVariable name =>
    s!"join operand rebinds variable '{name}' already bound on the left; "
      ++ "build the right side with its own for_each"
  | .unboundVariable name condition =>
    s!"condition #{condition} reads variable '{name}' before it is bound"

inductive SessionError where
  /-- the session holds no fact of this handle -/
  | unknownFact (handle : Nat)
  | bindingLimitExceeded (limit : Nat)
  /-- a condition reads a variable without a value in the current row -/
  | unboundVariable (name : String)
  deriving DecidableEq

def SessionError.message : SessionError → String
  | .unknownFact handle => s!"Unknown fact handle: {handle}"
  | .bindingLimitExceeded limit => s!"Evaluation exceeded the limit of {limit} bindings"
  | .unboundVariable name => s!"Variable '{name}' is not bound"

end MatchAlgebra
