import MatchAlgebra.Value

/-!
# Weights of matches

A weight is a 64-bit integer or a decimal.  Sums stay integers as long as they fit and turn into
decimals when they do not, so no total ever wraps around.
-/

namespace MatchAlgebra

inductive Weight where
  | long (n : Int64)
  | decimal (d : Decimal)

namespace Weight

def zero : Weight := .long 0

def toDecimal : Weight → Decimal
  | .long n => Decimal.ofInt n.toInt
  | .decimal d => d

/-- Whether an integer fits into 64 bits. -/
def fits (n : Int) : Bool := -9223372036854775808 ≤ n && n ≤ 9223372036854775807

def add : Weight → Weight → Weight
  | .long a, .long b =>
    if fits (a.toInt + b.toInt) then .long (a + b)
    else .decimal ((Decimal.ofInt a.toInt).add (Decimal.ofInt b.toInt))
  | a, b => .decimal (a.toDecimal.add b.toDecimal)

def sum (weights : List Weight) : Weight := weights.foldl add zero

/-- Integers and decimals are different weights even where the numbers agree. -/
def beq : Weight → Weight → Bool
  | .long a, .long b => a == b
  | .decimal a, .decimal b => a.beq b
  | _, _ => false

instance : BEq Weight := ⟨beq⟩

def text : Weight → String
  | .long n => toString n.toInt
  | .decimal d => d.text

end Weight

/-- How the visible values of a match give its weight. -/
inductive Weigher where
  /-- every match weighs one -/
  | unit
  | long (weigh : List Value → Int64)
  | decimal (weigh : List Value → Decimal)

namespace Weigher

def weigh (weigher : Weigher) (values : List Value) : Weight :=
  match weigher with
  | .unit => .long 1
  | .long f => .long (f values)
  | .decimal f => .decimal (f values)

def name : Weigher → String
  | .unit => "unit"
  | .long _ => "long"
  | .decimal _ => "decimal"

def text (weigher : Weigher) : String := s!"Weigher({weigher.name})"

end Weigher

end MatchAlgebra
