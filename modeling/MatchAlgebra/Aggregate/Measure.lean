import MatchAlgebra.Aggregate.Bag

/-!
# Measures

A measure turns the values of a group into one value.  It runs incrementally: values are added to
its state and removed again, and the result depends only on the values that are there.

Sums wrap around at 64 bits, so that removal is exact.  The average keeps integers in an exact sum
and all other values in a bag that is summed in ascending order, so that it too does not depend on
the order in which values came and went.

Seven measures are built in.  Any other is known by its answers: whatever it keeps of the values,
its result is a function of what it has been told.
-/

namespace MatchAlgebra

/-- What a measure is told: a value, under the next number, or that the value of a number goes. -/
inductive Measure.Event where
  | add (v : Value)
  | remove (number : Nat)

inductive Measure where
  | count
  | countDistinct
  | sum
  | min
  | max
  | average
  | toSortedList
  /-- a measure of another make, by its answers to what it has been told, the latest first -/
  | other (name : String) (answer : List Measure.Event → Value)

/-- The state of an average: the exact sum of the integers, the other values, and how many values
there are in all. -/
structure Mean where
  integers : Int
  others : Bag
  live : Int

namespace Mean

def empty : Mean := ⟨0, .empty, 0⟩

def add (mean : Mean) (v : Value) : Mean :=
  match v with
  | .int n => { mean with integers := mean.integers + n.toInt, live := mean.live + 1 }
  | v => { mean with others := mean.others.insert v, live := mean.live + 1 }

def remove (mean : Mean) (v : Value) : Mean :=
  match v with
  | .int n => { mean with integers := mean.integers - n.toInt, live := mean.live - 1 }
  | v => { mean with others := mean.others.erase v, live := mean.live - 1 }

/-- Null without values. -/
def result (mean : Mean) : Value :=
  if mean.live = 0 then .null
  else
    let total := (Binary64.ofInt mean.integers).add mean.others.sum
    .float (total.div (Binary64.ofInt mean.live))

end Mean

namespace Measure

def name : Measure → String
  | .count => "count"
  | .countDistinct => "countDistinct"
  | .sum => "sum"
  | .min => "min"
  | .max => "max"
  | .average => "average"
  | .toSortedList => "toSortedList"
  | .other name _ => name

/-- What a measure keeps of the values it has been given. -/
@[reducible] def State : Measure → Type
  | .count => Int
  | .countDistinct => Bag
  | .sum => Int64
  | .min => Bag
  | .max => Bag
  | .average => Mean
  | .toSortedList => Bag
  | .other _ _ => List Event

def start : (measure : Measure) → measure.State
  | .count => (0 : Int)
  | .countDistinct => Bag.empty
  | .sum => (0 : Int64)
  | .min => Bag.empty
  | .max => Bag.empty
  | .average => Mean.empty
  | .toSortedList => Bag.empty
  | .other _ _ => []

def add : (measure : Measure) → measure.State → Value → measure.State
  | .count, (n : Int), _ => n + 1
  | .countDistinct, bag, v => Bag.insert bag v
  | .sum, (total : Int64), v => total + v.toInt64
  | .min, bag, v => Bag.insert bag v
  | .max, bag, v => Bag.insert bag v
  | .average, mean, v => Mean.add mean v
  | .toSortedList, bag, v => Bag.insert bag v
  | .other _ _, events, v => .add v :: events

/-- Takes back what adding the value did.  It was added under the number; the built-in measures do
not look at that. -/
def remove : (measure : Measure) → measure.State → (number : Nat) → Value → measure.State
  | .count, (n : Int), _, _ => n - 1
  | .countDistinct, bag, _, v => Bag.erase bag v
  | .sum, (total : Int64), _, v => total - v.toInt64
  | .min, bag, _, v => Bag.erase bag v
  | .max, bag, _, v => Bag.erase bag v
  | .average, mean, _, v => Mean.remove mean v
  | .toSortedList, bag, _, v => Bag.erase bag v
  | .other _ _, events, number, _ => .remove number :: events

/-- The least and the greatest of no values are null. -/
def result : (measure : Measure) → measure.State → Value
  | .count, (n : Int) => .int (Int64.ofInt n)
  | .countDistinct, bag => .int (Int64.ofInt (Bag.distinct bag))
  | .sum, (total : Int64) => .int total
  | .min, bag => (Bag.least? bag).getD .null
  | .max, bag => (Bag.greatest? bag).getD .null
  | .average, mean => Mean.result mean
  | .toSortedList, bag => .tuple (Bag.toList bag)
  | .other _ answer, events => answer events

end Measure

end MatchAlgebra
