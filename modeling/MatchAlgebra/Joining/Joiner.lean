import MatchAlgebra.Error
import MatchAlgebra.Variable

/-!
# Joiners

A joiner says which candidate facts go with a tuple of bound values.  A list of joiners is a
conjunction.  `merge` sorts it into the comparisons, which an engine can serve from an index, and
the filters, which it has to run; so comparisons come first in a list, filters after them, and a
joiner that matches all stands alone.
-/

namespace MatchAlgebra

/-- The two functions whose results a comparison compares. -/
structure KeyPair where
  left : TupleFunction
  right : FactFunction

inductive Joiner where
  | comparing (comparison : Comparison) (keys : KeyPair)
  /-- every candidate matches -/
  | matchAll
  | filtering (predicate : JoinPredicate)

namespace Joiner

def kind : Joiner → JoinerKind
  | .comparing comparison _ => .comparing comparison
  | .matchAll => .matchAll
  | .filtering _ => .filtering

/-- The comparison that the joiner makes, if it makes one. -/
def comparison? : Joiner → Option Comparison
  | .comparing comparison _ => some comparison
  | _ => none

def isFiltering : Joiner → Bool
  | .filtering _ => true
  | _ => false

/-- Whether the joiner on its own lets the candidate pass. -/
def holds (joiner : Joiner) (tuple : List Value) (candidate : Value) : Bool :=
  match joiner with
  | .comparing comparison keys => comparison.holds (keys.left tuple) (keys.right candidate)
  | .matchAll => true
  | .filtering predicate => predicate tuple candidate

end Joiner

/-- One comparison with its keys. -/
structure KeyComparison where
  comparison : Comparison
  keys : KeyPair

def KeyComparison.holds (c : KeyComparison) (tuple : List Value) (candidate : Value) : Bool :=
  c.comparison.holds (c.keys.left tuple) (c.keys.right candidate)

/-- The comparisons of a list of joiners, all of which must hold.  The list is empty for a joiner
that matches all. -/
abbrev KeyComparisons := List KeyComparison

def KeyComparisons.holds (indexed : KeyComparisons) (tuple : List Value) (candidate : Value) :
    Bool :=
  indexed.all (·.holds tuple candidate)

/-- The predicates of a list of joiners, tested from the left. -/
abbrev JoinPredicates := List JoinPredicate

def JoinPredicates.holds (filter : JoinPredicates) (tuple : List Value) (candidate : Value) :
    Bool :=
  filter.all (· tuple candidate)

/-- The filters as one test of the values on the left followed by the candidate. -/
def JoinPredicates.overPair (filter : JoinPredicates) (degree : Nat) : TuplePredicate :=
  fun values => filter.holds (values.take degree) (valueAt degree values)

/-- What a list of joiners asks of a pair, sorted into two parts; a part that the list does not have
is absent. -/
structure JoinRule where
  indexed : Option KeyComparisons
  filter : Option JoinPredicates

namespace JoinRule

def empty : JoinRule := ⟨none, none⟩

def isEmpty (rule : JoinRule) : Bool := rule.indexed.isNone && rule.filter.isNone

def comparisons (rule : JoinRule) : KeyComparisons := rule.indexed.getD []

def predicates (rule : JoinRule) : JoinPredicates := rule.filter.getD []

def addComparison (rule : JoinRule) (c : KeyComparison) : JoinRule :=
  { rule with indexed := some (rule.comparisons ++ [c]) }

def addPredicate (rule : JoinRule) (predicate : JoinPredicate) : JoinRule :=
  { rule with filter := some (rule.predicates ++ [predicate]) }

/-- The comparisons are tested first, then the predicates; an absent part holds. -/
def holds (rule : JoinRule) (tuple : List Value) (candidate : Value) : Bool :=
  rule.indexed.all (·.holds tuple candidate) && rule.filter.all (·.holds tuple candidate)

/-! ### Text -/

def comparisonText (c : KeyComparison) : String :=
  s!"IndexedMapping \x7b joiner_type: {c.comparison.name}, mapping: KeyMapping \x7d"

def indexedText (indexed : Option KeyComparisons) : String :=
  match indexed with
  | none => "None"
  | some comparisons =>
    s!"Some(IndexedJoiner \x7b mappings: {Listing.bracketed (comparisons.map comparisonText)} \x7d)"

def filterText (filter : JoinPredicates) : String := s!"JoinFilter({filter.length} predicates)"

def text (rule : JoinRule) : String :=
  let filter := match rule.filter with
    | none => "None"
    | some filter => s!"Some({filterText filter})"
  s!"MergedJoiners \x7b indexed: {indexedText rule.indexed}, filter: {filter} \x7d"

end JoinRule

/-! ## Merging -/

namespace Joiner

/-- Merges the joiners from `position` on into what those before it gave.  The first joiner out of
place is reported, with the whole list. -/
def mergeFrom (all : List Joiner) :
    Nat → List Joiner → JoinRule → Except PlanError JoinRule
  | _, [], rule => .ok rule
  | position, .matchAll :: rest, rule =>
    if 1 < all.length then .error (.matchAllNotAlone position (all.map kind))
    else mergeFrom all (position + 1) rest { rule with indexed := some rule.comparisons }
  | position, .filtering predicate :: rest, rule =>
    mergeFrom all (position + 1) rest (rule.addPredicate predicate)
  | position, .comparing comparison keys :: rest, rule =>
    if rule.filter.isSome then
      .error (.comparingAfterFiltering position comparison (all.findIdx isFiltering)
        (all.map kind))
    else mergeFrom all (position + 1) rest (rule.addComparison ⟨comparison, keys⟩)

def merge (joiners : List Joiner) : Except PlanError JoinRule :=
  mergeFrom joiners 0 joiners .empty

end Joiner

end MatchAlgebra
