import MatchAlgebra.Value
import MatchAlgebra.Text.LowerCase

/-!
# Variables and the functions over them

A variable is a slot for one bound value.  It is identified by the factory that made it and its
number there; its name and declared type are for readers, and two factories may well use the same
name.  Functions over bound values take them by position.
-/

namespace MatchAlgebra

/-- The kind of a fact. -/
structure FactType where
  name : String
  deriving DecidableEq

/-- The first character in lower case: `Shift` gives `shift`, and the empty name `fact`. -/
def FactType.baseName (type : FactType) : String :=
  match type.name.toList with
  | [] => "fact"
  | first :: rest => String.ofList (LowerCase.ofChar first ++ rest)

structure VariableId where
  scope : Nat
  index : Nat
  deriving DecidableEq

/-- What a variable is declared to hold. -/
inductive VariableType where
  | fact (type : FactType)
  /-- a tuple of so many components -/
  | tuple (degree : Nat)
  /-- any derived value -/
  | value
  deriving DecidableEq

def VariableType.text : VariableType → String
  | .fact type => type.name
  | .tuple degree => s!"Tuple{degree}"
  | .value => "Value"

structure Variable where
  id : VariableId
  name : String
  type : VariableType

/-- Variables are the same if their identities are. -/
instance : BEq Variable := ⟨fun a b => a.id = b.id⟩

/-- The names of variables, separated by commas. -/
def Variable.names (list : List Variable) : String :=
  Listing.plain (list.map (·.name))

/-! ## Functions over bound values -/

/-- A value computed from bound values. -/
abbrev TupleFunction := List Value → Value

/-- A test of bound values. -/
abbrev TuplePredicate := List Value → Bool

/-- A value computed from one candidate fact. -/
abbrev FactFunction := Value → Value

/-- A test of bound values against one candidate fact. -/
abbrev JoinPredicate := List Value → Value → Bool

/-- The bound value at a position, null past the end. -/
def valueAt (index : Nat) : TupleFunction := fun values => values[index]?.getD .null

/-- All bound values as one tuple. -/
def wholeTuple : TupleFunction := Value.tuple

end MatchAlgebra
