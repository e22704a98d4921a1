import MatchAlgebra.Aggregate.Accumulation
import MatchAlgebra.Joining.Joiner

/-!
# Conditions

A condition is one requirement on the variables of a plan.  Most conditions are steps: they take
each row of bindings by itself.  A grouping looks at all rows of a plan of its own, its input, and
binds one row per group.

Conditions are identified by their id.  Two conditions that say the same are still two.
-/

namespace MatchAlgebra

/-- Which outcome of a search among candidate facts is wanted. -/
inductive Quantifier where
  /-- some candidate is found -/
  | found
  /-- no candidate is found -/
  | notFound
  deriving DecidableEq

namespace Quantifier

def holds (quantifier : Quantifier) (anyFound : Bool) : Bool :=
  match quantifier with
  | .found => anyFound
  | .notFound => !anyFound

def name : Quantifier → String
  | .found => "Exists"
  | .notFound => "NotExists"

end Quantifier

/-- One comparison of a join: the left key is computed from `inputs`, the right key from the fact
bound to `target`. -/
structure JoinTest where
  inputs : List Variable
  target : Variable
  /-- position among the comparisons of the join -/
  index : Nat
  comparison : KeyComparison

/-- A search for a fact that goes with the values of `inputs`. -/
structure ExistenceTest where
  quantifier : Quantifier
  /-- stands for the fact that is looked for; no row binds it -/
  candidate : Variable
  type : FactType
  inputs : List Variable
  joiners : JoinRule

/-- A condition that takes each row by itself. -/
inductive Step where
  /-- binds a variable to each fact of the type -/
  | pattern (bound : Variable) (type : FactType)
  /-- keeps rows on which the predicate holds -/
  | filter (inputs : List Variable) (predicate : TuplePredicate)
  | join (test : JoinTest)
  /-- binds a variable to a function of the inputs -/
  | bind (bound : Variable) (inputs : List Variable) (function : TupleFunction)
  | existence (test : ExistenceTest)

/-- The key that rows are grouped by, and the variable it is bound to. -/
structure GroupKey where
  bound : Variable
  function : TupleFunction

def GroupKey.text (key : GroupKey) : String := s!"GroupKey({key.bound.name})"

/-- A collector and the variable its result is bound to. -/
structure CollectorOutput where
  collector : Collector
  bound : Variable

/-- A grouping, its input plan apart.  There is at most one key: several keys come packed into one
tuple.  The collectors read the tuple bound to `source`. -/
structure Grouping where
  /-- the variables of the input plan, in tuple order -/
  inputs : List Variable
  source : Option Variable
  key : Option GroupKey
  outputs : List CollectorOutput

inductive Condition where
  | step (id : Nat) (step : Step)
  /-- groups the rows of the conditions in `input`, oldest first -/
  | group (id : Nat) (grouping : Grouping) (input : List Condition)

namespace Condition

def id : Condition → Nat
  | .step id _ => id
  | .group id _ _ => id

instance : BEq Condition := ⟨fun a b => a.id == b.id⟩

end Condition

/-! ## What conditions bind and read -/

def Step.binds : Step → List Variable
  | .pattern bound _ => [bound]
  | .bind bound _ _ => [bound]
  | _ => []

def Step.reads : Step → List Variable
  | .pattern _ _ => []
  | .filter inputs _ => inputs
  | .join test => test.inputs ++ [test.target]
  | .bind _ inputs _ => inputs
  | .existence test => test.inputs

/-- The key first, then the results. -/
def Grouping.binds (grouping : Grouping) : List Variable :=
  (grouping.key.map (·.bound)).toList ++ grouping.outputs.map (·.bound)

/-- What the grouping reads from the rows of its input. -/
def Grouping.readsInside (grouping : Grouping) : List Variable :=
  grouping.inputs ++ grouping.source.toList

namespace Condition

/-- The variables that conditions after this one can read. -/
def binds : Condition → List Variable
  | .step _ s => s.binds
  | .group _ grouping _ => grouping.binds

/-- The variables that conditions before this one must bind.  A grouping reads nothing here, since
its input binds all that it needs. -/
def reads : Condition → List Variable
  | .step _ s => s.reads
  | .group _ _ _ => []

/-- The conditions that a grouping starts from. -/
def input : Condition → List Condition
  | .step _ _ => []
  | .group _ _ input => input

/-! ## Text -/

def kindName : Condition → String
  | .step _ (.pattern _ _) => "Pattern"
  | .step _ (.filter _ _) => "Filter"
  | .step _ (.join _) => "Join"
  | .step _ (.bind _ _ _) => "Bind"
  | .step _ (.existence test) => test.quantifier.name
  | .group _ _ _ => "GroupBy"

end Condition

/-- The comparisons and the number of predicates that a search goes by. -/
def JoinRule.describe (rule : JoinRule) : String :=
  let comparisons := rule.comparisons.map (·.comparison.name)
  s!"indexed={Listing.bracketed comparisons}, filters={rule.predicates.length}"

def Grouping.describe (grouping : Grouping) : String :=
  let key := (grouping.key.map (·.bound.name)).getD "-"
  let outputs := grouping.outputs.map fun o => s!"{o.collector.name} -> {o.bound.name}"
  s!"GroupBy(key={key}, collectors={Listing.bracketed outputs}, "
    ++ s!"inputs=[{Variable.names grouping.inputs}])"

namespace Condition

/-- What the condition requires, in one line. -/
def describe : Condition → String
  | .step _ (.pattern bound type) => s!"Pattern({bound.name}: {type.name})"
  | .step _ (.filter inputs _) => s!"Filter({Variable.names inputs})"
  | .step _ (.join test) =>
    s!"Join#{test.index}({test.comparison.comparison.name} [{Variable.names test.inputs}] "
      ++ s!"-> {test.target.name})"
  | .step _ (.bind bound inputs _) => s!"Bind({bound.name} <- [{Variable.names inputs}])"
  | .step _ (.existence test) =>
    s!"{test.quantifier.name}({test.candidate.name}: {test.type.name}, "
      ++ s!"inputs=[{Variable.names test.inputs}], {test.joiners.describe})"
  | .group _ grouping _ => grouping.describe

/-- The description with the id before it. -/
def label (c : Condition) : String := s!"#{c.id} {c.describe}"

/-- A line, two blanks deeper for each level. -/
def indented (depth : Nat) (line : String) : String :=
  String.ofList (List.replicate (2 * depth) ' ') ++ line

mutual

/-- The description of a condition and, one level deeper, those of the input of a grouping. -/
def lines (depth : Nat) : Condition → List String
  | .step id s => [indented depth (describe (.step id s))]
  | .group id grouping input =>
    indented depth (describe (.group id grouping input)) :: linesAll (depth + 1) input

def linesAll (depth : Nat) : List Condition → List String
  | [] => []
  | c :: cs => c.lines depth ++ linesAll depth cs

end

/-- The lines of a condition as one text. -/
def text (depth : Nat) (c : Condition) : String := "\n".intercalate (c.lines depth)

end Condition

end MatchAlgebra
