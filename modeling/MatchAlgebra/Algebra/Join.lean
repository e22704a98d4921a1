import MatchAlgebra.Algebra.Expression

/-!
# Joins and existence checks

A join pairs the tuples of an expression with the values of another and keeps the pairs on which
all joiners hold.  An existence check keeps the tuples for which some fact, or none, goes with the
joiners, and binds nothing.  Both merge their joiners first, so that a bad list of joiners gives
one error for both.
-/

namespace MatchAlgebra

namespace Expression

/-- The variable that both sides bind, if there is one.  Such a variable would stand for two values
at once. -/
def sharedVariable? (left right : Expression) : Option Variable :=
  let bound := left.visible ++ left.last.log.newestFirst.flatMap Condition.binds
  (right.last.bound :: right.last.log.newestFirst.flatMap Condition.binds).find? (bound.contains ·)

/-- Whether two expressions can be joined, and by which rule: the left side must leave room for
another value, the right side must have one value and no variable of the left, and the joiners
must be in order. -/
def joinable (left right : Expression) (joiners : List Joiner) :
    Except PlanError JoinRule :=
  if maxDegree ≤ left.degree then .error (.degreeOverflow .join (left.degree + 1))
  else if right.degree ≠ 1 then .error (.joinOperandDegree right.degree)
  else match left.sharedVariable? right with
    | some v => .error (.sharedJoinVariable v.name)
    | none => Joiner.merge joiners

/-- What a join requires of a pair: each comparison by its number, then all filters at once. -/
def joinSteps (inputs : List Variable) (target : Variable) (rule : JoinRule) : List Step :=
  let tests := rule.comparisons.zipIdx.map fun (comparison, index) =>
    Step.join ⟨inputs, target, index, comparison⟩
  let filters := rule.filter.toList.map fun filter =>
    Step.filter (inputs ++ [target]) (filter.overPair inputs.length)
  tests ++ filters

def join (left right : Expression) (joiners : List Joiner) : Build Expression := do
  let rule ← check (left.joinable right joiners)
  let target := right.last.bound
  let both ← Log.union [left.last.log, right.last.log]
  let log ← Log.appendSteps both (joinSteps left.visible target rule)
  check (ofSlots (left.slots ++ [⟨target, log⟩]))

/-- Keeps the tuples for which a fact of the type that goes with the joiners is found, or is not
found. -/
def checkExistence (e : Expression) (factory : Factory) (quantifier : Quantifier)
    (type : FactType) (joiners : List Joiner) : Build Expression := do
  let rule ← check (Joiner.merge joiners)
  let candidate ← factory.create "toExist" (.fact type)
  e.require (.existence ⟨quantifier, candidate, type, e.visible, rule⟩)

end Expression

end MatchAlgebra
