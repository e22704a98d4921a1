import Std.Data.TreeSet.Lemmas

/-!
# Sets of handles

The facts that something was made from: their handles in ascending order, each once.
-/

namespace MatchAlgebra

abbrev HandleSet := Std.TreeSet Nat

namespace HandleSet

def addAll (set : HandleSet) (handles : List Nat) : HandleSet :=
  handles.foldl (fun set handle => set.insert handle) set

/-- The handles in ascending order, without repetition. -/
def ascending (handles : List Nat) : List Nat := (addAll ∅ handles).toList

end HandleSet

end MatchAlgebra
