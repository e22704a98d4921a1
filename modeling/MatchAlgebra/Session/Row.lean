import MatchAlgebra.Plan.Condition

/-!
# Rows and steps

A row binds values to variables and lists the facts it was made from.  Evaluation carries a list of
rows through the conditions of a plan; this module says what each step does to it.

Only joining rows with further ones makes more of them, so that it is there that their number is
held against the limit, before they are made.
-/

namespace MatchAlgebra

structure Fact where
  handle : Nat
  type : FactType
  value : Value

/-- Bindings, the latest first, and the handles of facts. -/
structure Row where
  values : List (VariableId × Value)
  facts : List Nat

namespace Row

def empty : Row := ⟨[], []⟩

def get (row : Row) (v : Variable) : Except SessionError Value :=
  match row.values.lookup v.id with
  | some value => .ok value
  | none => .error (.unboundVariable v.name)

/-- The values of variables in their order; fails at the first that is not bound. -/
def read (row : Row) : List Variable → Except SessionError (List Value)
  | [] => return []
  | v :: vs => do
    let value ← row.get v
    let values ← row.read vs
    return value :: values

/-- Binds a variable, in place of any value it had. -/
def bind (row : Row) (v : Variable) (value : Value) : Row :=
  { row with values := (v.id, value) :: row.values }

def bindFact (row : Row) (v : Variable) (fact : Fact) : Row :=
  { row.bind v fact.value with facts := row.facts ++ [fact.handle] }

/-- Both rows in one; where both bind a variable the second counts. -/
def merge (row other : Row) : Row :=
  ⟨other.values ++ row.values, row.facts ++ other.facts⟩

/-- The rows that pass a test.  The first error ends it. -/
def keep (test : Row → Except SessionError Bool) : List Row → Except SessionError (List Row)
  | [] => return []
  | row :: rows => do
    let kept ← test row
    let rest ← keep test rows
    return if kept then row :: rest else rest

/-- Changes every row.  The first error ends it. -/
def change (f : Row → Except SessionError Row) : List Row → Except SessionError (List Row)
  | [] => return []
  | row :: rows => do
    let changed ← f row
    let rest ← change f rows
    return changed :: rest

/-- Joins every row with every item.  More rows than the limit are an error; a limit of zero is
none. -/
def cross {α : Type} (limit : Nat) (rows : List Row) (items : List α) (join : Row → α → Row) :
    Except SessionError (List Row) :=
  if 0 < limit ∧ limit < rows.length * items.length then .error (.bindingLimitExceeded limit)
  else .ok (rows.flatMap fun row => items.map (join row))

end Row

/-! ## Steps -/

/-- The facts of a type in the order of their handles. -/
def factsOf (facts : List Fact) (type : FactType) : List Fact :=
  facts.filter (·.type = type)

def JoinTest.passes (test : JoinTest) (row : Row) : Except SessionError Bool := do
  let tuple ← row.read test.inputs
  let target ← row.get test.target
  return test.comparison.holds tuple target

namespace ExistenceTest

/-- Whether the search comes out as wanted for a tuple. -/
def holds (test : ExistenceTest) (facts : List Fact) (tuple : List Value) : Bool :=
  test.quantifier.holds
    ((factsOf facts test.type).any fun fact => test.joiners.holds tuple fact.value)

def passes (test : ExistenceTest) (facts : List Fact) (row : Row) :
    Except SessionError Bool := do
  let tuple ← row.read test.inputs
  return test.holds facts tuple

end ExistenceTest

/-- What a step makes of the rows before it. -/
def Step.apply (facts : List Fact) (limit : Nat) (rows : List Row) :
    Step → Except SessionError (List Row)
  | .pattern bound type => Row.cross limit rows (factsOf facts type) (·.bindFact bound ·)
  | .filter inputs predicate => Row.keep (fun row => predicate <$> row.read inputs) rows
  | .join test => Row.keep test.passes rows
  | .bind bound inputs function =>
    Row.change (fun row => return row.bind bound (function (← row.read inputs))) rows
  | .existence test => Row.keep (test.passes facts) rows

end MatchAlgebra
