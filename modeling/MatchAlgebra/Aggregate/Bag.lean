import MatchAlgebra.Table
import MatchAlgebra.Value

/-!
# Bags of values

A bag holds values in ascending order, each with how often it occurs.  Of equal values it keeps the
one that came first, for as long as it holds any of them.
-/

namespace MatchAlgebra

structure Bag where
  counts : Table Value Nat Value.compare

namespace Bag

def empty : Bag := ⟨∅⟩

def insert (bag : Bag) (v : Value) : Bag :=
  ⟨bag.counts.change v fun times => times.getD 0 + 1⟩

/-- Takes one occurrence of a value out; a value that is not there changes nothing. -/
def erase (bag : Bag) (v : Value) : Bag :=
  match bag.counts[v]? with
  | some times =>
    if times ≤ 1 then ⟨bag.counts.erase v⟩ else ⟨bag.counts.change v fun _ => times - 1⟩
  | none => bag

/-- How many different values there are. -/
def distinct (bag : Bag) : Nat := bag.counts.size

def least? (bag : Bag) : Option Value := bag.counts.minKey?

def greatest? (bag : Bag) : Option Value := bag.counts.maxKey?

/-- All values in ascending order, each as often as it occurs. -/
def toList (bag : Bag) : List Value :=
  bag.counts.toList.flatMap fun (v, times) => List.replicate times v

/-- The floating-point sum, taken over ascending values. -/
def sum (bag : Bag) : Binary64 :=
  bag.counts.toList.foldl
    (fun total (v, times) => total.add (v.toBinary64.mul (Binary64.ofInt times)))
    (Binary64.ofInt 0)

end Bag

end MatchAlgebra
