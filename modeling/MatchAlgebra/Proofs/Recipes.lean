import MatchAlgebra.Proofs.Accumulation

/-!
# Collectors of any make

A recipe says how a collector works: it has a container, takes tuples into it, takes them back by
what taking them has left, and tells a result.  An accumulation is described by a recipe if it does
the same, call by call:

    ((start c).run calls).result        =  (r.start.run calls).result
    (((start c).run calls).add xs).2    =  ((r.start.run calls).add xs).2
    (((start c).run calls).undo n).2    =  ((r.start.run calls).undo n).2     (Recipe.Describes)

The measures that are built in are described by recipes (`describes_ofCollector`).  A measure of
another make keeps no container, only what it has been told, and answers to that.  Nothing is lost:
the answers of a recipe are those of a container to which all has been done over again, and the
collector that goes by them is described by the recipe (`describes_collector`).
-/

namespace MatchAlgebra

structure Recipe where
  Container : Type
  /-- what taking a tuple leaves, so that it can be taken back -/
  Undo : Type
  seed : Container
  accumulate : Container → List Value → Container × Undo
  undo : Container → Undo → Container
  result : Container → Value

namespace Recipe

/-- A recipe at work, with what the tuples have left that it has not given back. -/
structure Working (r : Recipe) where
  container : r.Container
  pending : Std.TreeMap Nat r.Undo
  nextToken : Nat

variable {r : Recipe}

def start (r : Recipe) : r.Working := ⟨r.seed, ∅, 0⟩

namespace Working

def add (w : r.Working) (tuple : List Value) : r.Working × Nat :=
  let (container, undo) := r.accumulate w.container tuple
  (⟨container, w.pending.insert w.nextToken undo, w.nextToken + 1⟩, w.nextToken)

def undo (w : r.Working) (token : Nat) : r.Working × Bool :=
  match w.pending[token]? with
  | some undo => (⟨r.undo w.container undo, w.pending.erase token, w.nextToken⟩, true)
  | none => (w, false)

theorem undo_of_some {w : r.Working} {token : Nat} {left : r.Undo}
    (h : w.pending[token]? = some left) :
    w.undo token = (⟨r.undo w.container left, w.pending.erase token, w.nextToken⟩, true) := by
  rw [undo, h]

theorem undo_of_none {w : r.Working} {token : Nat} (h : w.pending[token]? = none) :
    w.undo token = (w, false) := by
  rw [undo, h]

def result (w : r.Working) : Value := r.result w.container

def perform (w : r.Working) : Accumulation.Call → r.Working
  | .add tuple => (w.add tuple).1
  | .undo token => (w.undo token).1

def run (w : r.Working) (calls : List Accumulation.Call) : r.Working := calls.foldl perform w

end Working

/-- Accumulations of the collector do what the recipe does: they give its results, hand out the same
tokens and take back the same tokens. -/
def Describes (r : Recipe) (c : Collector) : Prop :=
  ∀ calls : List Accumulation.Call,
    let a := (Accumulation.start c).run calls
    let w := r.start.run calls
    a.result = w.result ∧ (∀ tuple, (a.add tuple).2 = (w.add tuple).2) ∧
      ∀ token, (a.undo token).2 = (w.undo token).2

/-! ## In step -/

/-- A relation that keeps accumulations in step with a recipe. -/
structure Keeps (r : Recipe) (c : Collector) (inStep : Accumulation → r.Working → Prop) : Prop where
  start : inStep (.start c) r.start
  add : ∀ {a w}, inStep a w → ∀ tuple,
    inStep (a.add tuple).1 (w.add tuple).1 ∧ (a.add tuple).2 = (w.add tuple).2
  undo : ∀ {a w}, inStep a w → ∀ token,
    inStep (a.undo token).1 (w.undo token).1 ∧ (a.undo token).2 = (w.undo token).2
  result : ∀ {a w}, inStep a w → a.result = w.result

namespace Keeps

variable {c : Collector} {inStep : Accumulation → r.Working → Prop}

theorem run (h : r.Keeps c inStep) {a : Accumulation} {w : r.Working} (here : inStep a w)
    (calls : List Accumulation.Call) : inStep (a.run calls) (w.run calls) := by
  induction calls generalizing a w with
  | nil => exact here
  | cons call calls ih =>
    cases call with
    | add tuple => exact ih (h.add here tuple).1
    | undo token => exact ih (h.undo here token).1

theorem describes (h : r.Keeps c inStep) : r.Describes c := by
  intro calls a w
  have here : inStep a w := h.run h.start calls
  exact ⟨h.result here, fun tuple => (h.add here tuple).2, fun token => (h.undo here token).2⟩

end Keeps

/-! ## Built-in measures -/

/-- How a collector with a built-in measure works: a tuple leaves its value. -/
def ofCollector (c : Collector) : Recipe where
  Container := c.measure.State
  Undo := Value
  seed := c.measure.start
  accumulate state tuple := (c.measure.add state (c.mapping tuple), c.mapping tuple)
  undo state v := c.measure.remove state 0 v
  result := c.measure.result

/-- The recipe has what the accumulation has. -/
inductive SameState (c : Collector) : Accumulation → (ofCollector c).Working → Prop
  | same (state : c.measure.State) (pending : Std.TreeMap Nat Value compare) (nextToken : Nat) :
      SameState c ⟨c, state, pending, nextToken⟩ ⟨state, pending, nextToken⟩

/-- **Built-in measures are recipes.** -/
theorem describes_ofCollector {c : Collector}
    (builtIn : ∀ name answer, c.measure ≠ .other name answer) : (ofCollector c).Describes c := by
  have unnumbered : ∀ state n v, c.measure.remove state n v = c.measure.remove state 0 v := by
    cases hm : c.measure with
    | other name answer => exact absurd hm (builtIn name answer)
    | _ => exact fun _ _ _ => rfl
  have keeps : (ofCollector c).Keeps c (SameState c) := by
    refine ⟨.same _ _ _, ?_, ?_, ?_⟩
    · rintro _ _ ⟨state, pending, nextToken⟩ tuple
      exact ⟨.same _ _ _, rfl⟩
    · rintro _ _ ⟨state, pending, nextToken⟩ token
      cases h : pending[token]? with
      | none =>
        rw [Accumulation.undo_of_none h, Working.undo_of_none h]
        exact ⟨.same _ _ _, rfl⟩
      | some v =>
        rw [Accumulation.undo_of_some h, Working.undo_of_some h]
        dsimp only
        rw [unnumbered]
        exact ⟨.same _ _ _, rfl⟩
    · rintro _ _ ⟨state, pending, nextToken⟩
      rfl
  exact keeps.describes

/-! ## Measures of another make -/

/-- All that has been told, the latest first, done over again. -/
def replay (r : Recipe) : List Measure.Event → r.Working
  | [] => r.start
  | .add v :: events => ((r.replay events).add v.components).1
  | .remove token :: events => ((r.replay events).undo token).1

/-- The collector that is known by the answers of the recipe. -/
def collector (r : Recipe) (name : String) : Collector :=
  ⟨.other name fun events => (r.replay events).result, wholeTuple⟩

/-- The accumulation has been told what has been done to the recipe, and the same tokens are still
to be handed in. -/
inductive Told (r : Recipe) (name : String) : Accumulation → r.Working → Prop
  | told (events : List Measure.Event) (pending : Std.TreeMap Nat Value)
      (same : ∀ token : Nat,
        pending[token]?.isSome = (r.replay events).pending[token]?.isSome) :
      Told r name ⟨r.collector name, events, pending, (r.replay events).nextToken⟩
        (r.replay events)

namespace Told

variable {name : String} {a : Accumulation} {w : r.Working}

theorem start (r : Recipe) (name : String) :
    r.Told name (Accumulation.start (r.collector name)) r.start :=
  .told [] ∅ fun token => by
    rw [replay, Recipe.start, Std.TreeMap.getElem?_emptyc, Std.TreeMap.getElem?_emptyc]
    rfl

theorem add (h : r.Told name a w) (tuple : List Value) :
    r.Told name (a.add tuple).1 (w.add tuple).1 ∧ (a.add tuple).2 = (w.add tuple).2 := by
  cases h with
  | told events pending same =>
    refine ⟨.told (.add (wholeTuple tuple) :: events) _ fun token => ?_, rfl⟩
    show (pending.insert _ _)[token]?.isSome =
      ((r.replay events).pending.insert (r.replay events).nextToken _)[token]?.isSome
    rw [Std.TreeMap.getElem?_insert, Std.TreeMap.getElem?_insert]
    split
    · rfl
    · exact same token

theorem undo (h : r.Told name a w) (token : Nat) :
    r.Told name (a.undo token).1 (w.undo token).1 ∧ (a.undo token).2 = (w.undo token).2 := by
  cases h with
  | told events pending same =>
    have here := same token
    cases hw : (r.replay events).pending[token]? with
    | none =>
      rw [hw, Option.isSome_none, Option.isSome_eq_false_iff, Option.isNone_iff_eq_none] at here
      rw [Accumulation.undo_of_none here, Working.undo_of_none hw]
      exact ⟨.told events pending same, rfl⟩
    | some left =>
      rw [hw, Option.isSome_some] at here
      obtain ⟨v, hv⟩ := Option.isSome_iff_exists.1 here
      have replayed : r.replay (.remove token :: events) = ((r.replay events).undo token).1 := rfl
      rw [Working.undo_of_some hw] at replayed ⊢
      rw [Accumulation.undo_of_some hv]
      refine ⟨?_, rfl⟩
      have told := @Told.told r name (.remove token :: events) (pending.erase token)
      rw [replayed] at told
      refine told fun other => ?_
      rw [Std.TreeMap.getElem?_erase, Std.TreeMap.getElem?_erase]
      split
      · rfl
      · exact same other

theorem result (h : r.Told name a w) : a.result = w.result := by
  cases h with
  | told events pending same => rfl

end Told

/-- **Answers are enough.**  The collector that is known by the answers of a recipe does all that
the recipe does. -/
theorem describes_collector (r : Recipe) (name : String) : r.Describes (r.collector name) :=
  Keeps.describes ⟨Told.start r name, Told.add, Told.undo, Told.result⟩

end Recipe

end MatchAlgebra
