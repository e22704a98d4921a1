import MatchAlgebra.Value

/-!
# Comparisons between keys

The six ways in which the key of a bound tuple, on the left, is compared with the key of a
candidate fact, on the right.  `equal` and `notEqual` go by equality of values, the others by
their order.
-/

namespace MatchAlgebra

inductive Comparison where
  | equal
  | lessThan
  | lessThanOrEqual
  | greaterThan
  | greaterThanOrEqual
  | notEqual
  deriving DecidableEq

namespace Comparison

def holds (comparison : Comparison) (left right : Value) : Bool :=
  match comparison with
  | .equal => left == right
  | .notEqual => left != right
  | .lessThan => left.compare right == .lt
  | .lessThanOrEqual => left.compare right != .gt
  | .greaterThan => left.compare right == .gt
  | .greaterThanOrEqual => left.compare right != .lt

/-- The comparison with its sides swapped. -/
def flip : Comparison → Comparison
  | .equal => .equal
  | .notEqual => .notEqual
  | .lessThan => .greaterThan
  | .lessThanOrEqual => .greaterThanOrEqual
  | .greaterThan => .lessThan
  | .greaterThanOrEqual => .lessThanOrEqual

/-- Whether a hash index serves the comparison; the others need a range index. -/
def hashIndexable (comparison : Comparison) : Bool := comparison = .equal

def symbol : Comparison → String
  | .equal => "=="
  | .notEqual => "!="
  | .lessThan => "<"
  | .lessThanOrEqual => "<="
  | .greaterThan => ">"
  | .greaterThanOrEqual => ">="

def name : Comparison → String
  | .equal => "Equal"
  | .lessThan => "LessThan"
  | .lessThanOrEqual => "LessThanOrEqual"
  | .greaterThan => "GreaterThan"
  | .greaterThanOrEqual => "GreaterThanOrEqual"
  | .notEqual => "NotEqual"

end Comparison

/-- What a joiner does, without the functions it does it by. -/
inductive JoinerKind where
  | comparing (comparison : Comparison)
  | matchAll
  | filtering
  deriving DecidableEq

namespace JoinerKind

def name : JoinerKind → String
  | .comparing comparison => comparison.name
  | .matchAll => "None"
  | .filtering => "Filtering"

/-- A list of joiners with their positions: `[#0 Equal, #1 Filtering]`. -/
def describe (kinds : List JoinerKind) : String :=
  Listing.bracketed (kinds.zipIdx.map fun (kind, position) => s!"#{position} {kind.name}")

end JoinerKind

end MatchAlgebra
