import MatchAlgebra.Plan.Condition
import MatchAlgebra.Session.Handles
import MatchAlgebra.Table

/-!
# Partitions

A grouping keeps its groups from one evaluation to the next.  A partition holds the accumulations of
one group, and for each tuple that was fed to them the tokens that undo it, one set for each time it
was fed.  When the facts have changed, only the difference is fed: tuples that are gone are undone,
the latest first, and then the new ones are added.

A partition and a tuple keep the key they were first made with, so that an equal one in another
spelling does not replace it.

Groups are visited in ascending order of their keys, but the tuples of a group in no order that
could be relied on.  The order is an argument, and what is said of reconciling is said of every
order.
-/

namespace MatchAlgebra

/-- The tokens of one fused insert, one for each collector. -/
abbrev Undo := List Nat

structure Partition where
  fused : Fused
  /-- the source tuples, each with what undoes its copies, the latest first -/
  contributions : Table Value (List Undo) Value.compare

/-- The groups of a grouping by key. -/
abbrev Partitions := Table Value Partition Value.compare

namespace Partition

def start (collectors : List Collector) : Partition := ⟨Fused.start collectors, ∅⟩

/-- How many copies of a source tuple have been fed. -/
def copies (partition : Partition) (source : Value) : Nat :=
  (partition.contributions.getD source []).length

def insert (partition : Partition) (source : Value) : Partition :=
  let (fused, undo) := partition.fused.insert source.components
  ⟨fused, partition.contributions.change source fun undos => undo :: undos.getD []⟩

/-- Undoes the latest copy of a source tuple. -/
def retract (partition : Partition) (source : Value) : Partition :=
  match partition.contributions[source]? with
  | some [undo] => ⟨partition.fused.retract undo, partition.contributions.erase source⟩
  | some (undo :: rest) =>
    ⟨partition.fused.retract undo, partition.contributions.change source fun _ => rest⟩
  | _ => partition

def isEmpty (partition : Partition) : Bool := partition.contributions.isEmpty

end Partition

/-! ## What a grouping is given -/

/-- The tuples of one group with how often each occurs, and the facts they were made from. -/
structure GroupInput where
  sources : Table Value Nat Value.compare
  facts : HandleSet

namespace GroupInput

def empty : GroupInput := ⟨∅, ∅⟩

def add (input : GroupInput) (source : Value) (facts : List Nat) : GroupInput :=
  ⟨input.sources.change source fun times => times.getD 0 + 1, input.facts.addAll facts⟩

/-- How often a source tuple is wanted. -/
def times (input : GroupInput) (source : Value) : Nat := input.sources.getD source 0

end GroupInput

/-- What the groups of a grouping are given, by key. -/
abbrev GroupInputs := Table Value GroupInput Value.compare

/-- One row of the input of a grouping: its key, its source tuple and its facts. -/
structure KeyedSource where
  key : Value
  source : Value
  facts : List Nat

/-- The groups that rows fall into. -/
def groupInputs (rows : List KeyedSource) : GroupInputs :=
  rows.foldl (fun groups row =>
    groups.change row.key fun input => (input.getD .empty).add row.source row.facts) ∅

/-! ## Orders -/

/-- An order in which the tuples of each group are visited. -/
structure Tour where
  order : Value → List Value → List Value
  perm : ∀ key sources, (order key sources).Perm sources

def Tour.ascending : Tour := ⟨fun _ sources => sources, fun _ sources => .refl sources⟩

/-- The tour on which tuples are taken back, and the one on which they are fed. -/
structure Tours where
  back : Tour
  forth : Tour

/-- The tours of an evaluation by the ids of groupings. -/
abbrev Visits := Nat → Tours

def Visits.ascending : Visits := fun _ => ⟨.ascending, .ascending⟩

/-! ## Reconciling -/

/-- One tuple to be fed to a group, or to be taken back from it. -/
inductive Change where
  | retract (key source : Value)
  | insert (key source : Value)

namespace Partitions

/-- How often a source tuple of a group has been fed. -/
def copies (partitions : Partitions) (key source : Value) : Nat :=
  (partitions[key]?.map (·.copies source)).getD 0

/-- How often a source tuple of a group is wanted. -/
def wanted (target : GroupInputs) (key source : Value) : Nat :=
  (target[key]?.map (·.times source)).getD 0

def retractions (partitions : Partitions) (tour : Tour) (target : GroupInputs) : List Change :=
  partitions.toList.flatMap fun (key, partition) =>
    (tour.order key partition.contributions.keys).flatMap fun source =>
      List.replicate (partition.copies source - wanted target key source) (.retract key source)

def insertions (partitions : Partitions) (tour : Tour) (target : GroupInputs) : List Change :=
  target.toList.flatMap fun (key, input) =>
    (tour.order key input.sources.keys).flatMap fun source =>
      List.replicate (input.times source - partitions.copies key source) (.insert key source)

/-- Makes one change.  A group is made for its first tuple and dropped with its last. -/
def apply (collectors : List Collector) (partitions : Partitions) : Change → Partitions
  | .retract key source =>
    match partitions[key]? with
    | some partition =>
      let partition := partition.retract source
      if partition.isEmpty then partitions.erase key else partitions.change key fun _ => partition
    | none => partitions
  | .insert key source =>
    partitions.change key fun partition =>
      (partition.getD (Partition.start collectors)).insert source

/-- The changes that lead from what has been fed to what is wanted. -/
def changes (partitions : Partitions) (tours : Tours) (target : GroupInputs) : List Change :=
  partitions.retractions tours.back target ++ partitions.insertions tours.forth target

def reconcile (collectors : List Collector) (tours : Tours) (partitions : Partitions)
    (target : GroupInputs) : Partitions :=
  (partitions.changes tours target).foldl (apply collectors) partitions

end Partitions

end MatchAlgebra
