import MatchAlgebra.Aggregate.Measure
import MatchAlgebra.Variable

/-!
# Accumulations

A collector is a measure of the values that a function takes from the tuples of a group.  An
accumulation is a collector at work: each tuple it takes gets a token, and handing the token back
undoes exactly that tuple, whatever came in between.  A token works once.

The collectors of one group run side by side: `Fused` feeds each tuple to all of them.
-/

namespace MatchAlgebra

structure Collector where
  measure : Measure
  mapping : TupleFunction

namespace Collector

def name (collector : Collector) : String := collector.measure.name

def text (collector : Collector) : String := s!"GroupCollector({collector.name})"

/-- How many tuples there are. -/
def count : Collector := ⟨.count, fun _ => .null⟩

end Collector

/-- A collector with the values it has taken and not given back, each under its token. -/
structure Accumulation where
  collector : Collector
  state : collector.measure.State
  pending : Std.TreeMap Nat Value
  nextToken : Nat

namespace Accumulation

def start (collector : Collector) : Accumulation :=
  ⟨collector, collector.measure.start, ∅, 0⟩

/-- Takes a tuple and hands out its token. -/
def add (a : Accumulation) (tuple : List Value) : Accumulation × Nat :=
  let v := a.collector.mapping tuple
  let state := a.collector.measure.add a.state v
  (⟨a.collector, state, a.pending.insert a.nextToken v, a.nextToken + 1⟩, a.nextToken)

/-- Undoes the tuple of a token.  A token never handed out, or undone before, changes nothing, and
the second part tells which it was. -/
def undo (a : Accumulation) (token : Nat) : Accumulation × Bool :=
  match a.pending[token]? with
  | some v =>
    let state := a.collector.measure.remove a.state token v
    (⟨a.collector, state, a.pending.erase token, a.nextToken⟩, true)
  | none => (a, false)

def result (a : Accumulation) : Value := a.collector.measure.result a.state

end Accumulation

/-- The accumulations of the collectors of one group. -/
abbrev Fused := List Accumulation

namespace Fused

def start (collectors : List Collector) : Fused := collectors.map Accumulation.start

/-- Feeds a tuple to every collector and gives their tokens. -/
def insert (fused : Fused) (tuple : List Value) : Fused × List Nat :=
  (fused.map (·.add tuple |>.1), fused.map (·.add tuple |>.2))

/-- Undoes one insert, each collector its own token; collectors without a token stay as they are. -/
def retract : Fused → List Nat → Fused
  | a :: rest, token :: tokens => (a.undo token).1 :: retract rest tokens
  | rest, _ => rest

def results (fused : Fused) : List Value := fused.map Accumulation.result

def text (fused : Fused) : String := s!"FusedAccumulator({fused.length} collectors)"

end Fused

end MatchAlgebra
