import MatchAlgebra.Number.Shortest
import MatchAlgebra.Number.Decimal
import MatchAlgebra.Text.Listing

/-!
# Values

The values that facts hold and that variables are bound to.  Equality and order are structural:
numbers of different kinds are never equal, tuples are compared component by component, floating
point by bits and decimals by the number they stand for.  `compare` orders the kinds first, null
below booleans below integers and so on up to tuples.

Equality here is `==`, which is coarser than `=` on decimals alone: `1.0 == 1.00`.
-/

namespace MatchAlgebra

inductive Value where
  | null
  | bool (b : Bool)
  | int (n : Int64)
  | float (x : Binary64)
  | decimal (d : Decimal)
  | string (s : String)
  | tuple (components : List Value)

namespace Value

/-! ## Equality and order -/

mutual

def beq : Value → Value → Bool
  | .null, .null => true
  | .bool a, .bool b => a == b
  | .int a, .int b => a == b
  | .float a, .float b => a = b
  | .decimal a, .decimal b => a.beq b
  | .string a, .string b => a == b
  | .tuple a, .tuple b => beqAll a b
  | _, _ => false

def beqAll : List Value → List Value → Bool
  | [], [] => true
  | a :: as, b :: bs => beq a b && beqAll as bs
  | _, _ => false

end

instance : BEq Value := ⟨beq⟩

/-- The kinds of values in ascending order. -/
def rank : Value → Nat
  | .null => 0
  | .bool _ => 1
  | .int _ => 2
  | .float _ => 3
  | .decimal _ => 4
  | .string _ => 5
  | .tuple _ => 6

/-- Strings are ordered by code point. -/
def compareStrings (a b : String) : Ordering :=
  List.compareLex (fun c d => Ord.compare c.toNat d.toNat) a.toList b.toList

mutual

def compare : Value → Value → Ordering
  | .bool a, .bool b => Ord.compare a b
  | .int a, .int b => Ord.compare a.toInt b.toInt
  | .float a, .float b => a.compare b
  | .decimal a, .decimal b => a.compare b
  | .string a, .string b => compareStrings a b
  | .tuple a, .tuple b => compareAll a b
  | a, b => Ord.compare a.rank b.rank

def compareAll : List Value → List Value → Ordering
  | [], [] => .eq
  | [], _ :: _ => .lt
  | _ :: _, [] => .gt
  | a :: as, b :: bs => (compare a b).then (compareAll as bs)

end

/-- Values in ascending order; equal ones stay in their order. -/
def sort (values : List Value) : List Value :=
  values.mergeSort fun a b => a.compare b != .gt

/-- The values without repetition; of equal ones the first stays. -/
def distinct (values : List Value) : List Value := values.eraseDups

/-! ## Parts -/

def isNull : Value → Bool
  | .null => true
  | _ => false

def asInt? : Value → Option Int64
  | .int n => some n
  | _ => none

/-- Integers widen to floating point. -/
def asFloat? : Value → Option Binary64
  | .float x => some x
  | .int n => some (Binary64.ofInt n.toInt)
  | _ => none

def asBool? : Value → Option Bool
  | .bool b => some b
  | _ => none

def asString? : Value → Option String
  | .string s => some s
  | _ => none

def asDecimal? : Value → Option Decimal
  | .decimal d => some d
  | _ => none

def asTuple? : Value → Option (List Value)
  | .tuple components => some components
  | _ => none

/-- Component `index` of a tuple. -/
def component? (v : Value) (index : Nat) : Option Value :=
  v.asTuple?.bind (·[index]?)

/-- The components of a tuple; a value that is no tuple has none. -/
def components (v : Value) : List Value := v.asTuple?.getD []

/-! ## Numbers for aggregation -/

/-- Floating point is cut toward zero; what is not a number counts as zero. -/
def toInt64 : Value → Int64
  | .int n => n
  | .float x => x.toInt64
  | .bool b => if b then 1 else 0
  | _ => 0

/-- What is not a number counts as zero. -/
def toBinary64 : Value → Binary64
  | .int n => Binary64.ofInt n.toInt
  | .float x => x
  | .bool b => Binary64.ofInt (if b then 1 else 0)
  | _ => Binary64.ofInt 0

/-! ## Text -/

mutual

def text : Value → String
  | .null => "NULL"
  | .bool b => if b then "true" else "false"
  | .int n => toString n.toInt
  | .float x => x.text
  | .decimal d => d.text
  | .string s => "\"" ++ s ++ "\""
  | .tuple components => "(" ++ Listing.plain (texts components) ++ ")"

def texts : List Value → List String
  | [] => []
  | v :: vs => v.text :: texts vs

end

end Value

end MatchAlgebra
