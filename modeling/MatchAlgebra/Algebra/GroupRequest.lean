import MatchAlgebra.Algebra.Supply

/-!
# Grouping requests

A request lists the keys to group by and the collectors to run, at most four in all.

Groups have at most one key.  Several keys are packed into one tuple, and once the groups are made
the components are bound to variables of their own, so that later operations see as many keys as
were asked for.
-/

namespace MatchAlgebra

structure GroupRequest where
  keys : List TupleFunction
  collectors : List Collector

namespace GroupRequest

/-- The keys come first, then the results of the collectors. -/
def degree (request : GroupRequest) : Nat :=
  request.keys.length + request.collectors.length

def validate (request : GroupRequest) : Except PlanError Unit :=
  if request.degree = 0 then .error .emptyGroupBy
  else if maxDegree < request.degree then
    .error (.degreeOverflow .groupBy request.degree)
  else .ok ()

def text (request : GroupRequest) : String :=
  let collectors := Listing.bracketed (request.collectors.map Collector.text)
  s!"GroupBy \x7b keys: {request.keys.length}, collectors: {collectors} \x7d"

end GroupRequest

/-! ## Packed keys -/

/-- The tuple of all keys, in their order. -/
def keyTuple (keys : List TupleFunction) : TupleFunction :=
  fun values => .tuple (keys.map fun key => key values)

/-- Component `index` of the packed key that is the first of the values; null if there is none. -/
def keyComponent (index : Nat) : TupleFunction :=
  fun values => (values.head?.bind (·.component? index)).getD .null

/-- Makes a variable for each component of a packed key, with the condition that binds it. -/
def bindComponents (factory : Factory) (composite : Variable) (count : Nat) :
    Build (List (Variable × Condition)) :=
  (List.range count).mapM fun index => do
    let bound ← factory.create "groupKey" .value
    let c ← newStep (.bind bound [composite] (keyComponent index))
    return (bound, c)

end MatchAlgebra
