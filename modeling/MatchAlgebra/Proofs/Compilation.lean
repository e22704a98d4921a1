import MatchAlgebra.Proofs.Built
import MatchAlgebra.Proofs.History
import MatchAlgebra.Proofs.Meaning

/-!
# Compilation preserves meaning

Whatever has been built from a supply, in whatever order and with whatever parts in common, each
expression stands for the term that says how it was built (`Built.exists_registry`).  So the plan of
an expression, evaluated by a session without limit or partitions, finds the rows of the term:

    Built s es  →  (t, e) ∈ es  →
      ∃ ms, (session.evaluate (e.toPlan w)).1 = .ok ms ∧
        Forall₂ (fun m x => m.values == x ∧ m.weight == w.weigh x) ms (t.rows session.facts)
                                                                        (Session.evaluate_toPlan)
-/

namespace MatchAlgebra

/-! ## Matches -/

namespace Plan

/-- Each row that reads as expected gives the match that is expected. -/
theorem matchesOf_in_step (plan : Plan) {rows : List Row} {xs : List (List Value)}
    (h : List.Forall₂ (fun row x => row.read plan.visible = .ok x) rows xs) :
    ∃ ms, plan.matchesOf rows = .ok ms ∧
      List.Forall₂ (fun m x => m.values = x ∧ m.weight = plan.weigher.weigh x) ms xs := by
  induction h with
  | nil => exact ⟨[], rfl, .nil⟩
  | @cons row x rows xs hx _ ih =>
    obtain ⟨ms, hms, hstep⟩ := ih
    refine ⟨⟨x, plan.weigher.weigh x, HandleSet.ascending row.facts⟩ :: ms, ?_,
      .cons ⟨rfl, rfl⟩ hstep⟩
    rw [matchesOf, matchOf, hx, hms]
    rfl

end Plan

/-- Matches that are alike fit the same rows. -/
theorem forall₂_of_alike {w : Weigher} {ms others : List Match} {xs : List (List Value)}
    (halike : List.Forall₂ Match.Alike ms others)
    (h : List.Forall₂ (fun m x => m.values = x ∧ m.weight = w.weigh x) others xs) :
    List.Forall₂ (fun m x => m.values == x ∧ m.weight == w.weigh x) ms xs := by
  induction halike generalizing xs with
  | nil =>
    cases h
    exact .nil
  | cons alike _ ih =>
    cases h with
    | cons hx hrest =>
      obtain ⟨rfl, hw⟩ := hx
      exact .cons ⟨alike.values, hw ▸ alike.weight⟩ (ih hrest)

/-! ## Evaluation -/

namespace Session

/-- **Compilation preserves meaning.**  The plan of an expression finds one match for each row of
its term over the facts, which stand in the order of their handles, whatever tours the evaluation
goes on. -/
theorem evaluate_toPlan {s : Supply} {es : List (Term × Expression)} (built : Built s es)
    {t : Term} {e : Expression} (operand : (t, e) ∈ es) (respects : t.Respects) {w : Weigher}
    (weigher_respects : w.Respects) (history : List Request)
    (no_groups : ((start 0).run history).groups = ∅) :
    let session := (start 0).run history
    session.facts.Pairwise (fun a b => a.handle < b.handle) ∧
      ∀ visits, ∃ ms, (session.evaluate (e.toPlan w) visits).1 = .ok ms ∧
        List.Forall₂ (fun m x => m.values == x ∧ m.weight == w.weigh x) ms
          (t.rows session.facts) := by
  intro session
  refine ⟨((ordered_start 0).run history).facts, fun visits => ?_⟩
  obtain ⟨r, -, stands⟩ := built.exists_registry
  obtain ⟨-, files, -, -, flat⟩ := stands _ operand
  obtain ⟨rows, hrows, hread⟩ := flat.reads session.facts
  obtain ⟨others, hothers, hmatches⟩ := (e.toPlan w).matchesOf_in_step hread
  have limit : session.maxBindings = 0 := maxBindings_run _ _
  have derived : (e.toPlan w).derive .afresh session.facts session.maxBindings = .ok others := by
    rw [limit, Plan.derive]
    show (Condition.deriveAll .afresh session.facts 0 [Row.empty] e.log.oldestFirst >>= _) = _
    rw [hrows]
    exact hothers
  have agrees : ∀ d ∈ Condition.partsAll (e.toPlan w).conditions, d.SelfAgrees _ :=
    fun d hd => (Registry.identified_log files).selfAgrees hd
  have evaluated := (Plan.evaluate_recomputes agrees ⟨flat.respects respects, weigher_respects⟩
    visits session.facts session.maxBindings _ GroupStore.sound_empty).1
  rw [derived] at evaluated
  have answer : (session.evaluate (e.toPlan w) visits).1 =
      (((e.toPlan w).evaluate visits session.facts session.maxBindings).run.run ∅).1 := by
    rw [← no_groups]
    rfl
  rw [← answer] at evaluated
  have same := SameAnswer.of_map_eq evaluated
  cases hresult : (session.evaluate (e.toPlan w) visits).1 with
  | error error =>
    rw [hresult] at same
    cases same
  | ok ms =>
    rw [hresult] at same
    cases same with
    | ok alike => exact ⟨ms, rfl, forall₂_of_alike alike hmatches⟩

/-- Facts of two types, joined where they are equal and counted by their value. -/
theorem evaluate_toPlan_grouped_join :
    let t : Term :=
      .groupBy (Sample.pairing (valueAt 0)) ⟨[valueAt 0], [⟨.count, valueAt 0⟩]⟩
    let source : Variable := Sample.numbered "source" 3 (.tuple 2)
    let key : Variable := Sample.numbered "groupKey" 4 .value
    let total : Variable := Sample.numbered "result" 5 .value
    let group : Condition := .group 5 ⟨[Sample.v, Sample.w], some source, some ⟨key, valueAt 0⟩,
        [⟨⟨.count, valueAt 0⟩, total⟩]⟩
      [Sample.first, Sample.second, Sample.test (valueAt 0),
        .step 4 (.bind source [Sample.v, Sample.w] wholeTuple)]
    let log : Log := .link .empty 5 1 group
    let e : Expression := ⟨[⟨key, log⟩], ⟨total, log⟩, ⟨[key, total], log⟩⟩
    let history : List Request :=
      [.insert Sample.left (.int 7), .insert Sample.right (.decimal ⟨70, 1⟩),
        .insert Sample.right (.int 7), .update 1 (.decimal ⟨7, 0⟩)]
    let session := (start 0).run history
    (∃ s es, Built s es ∧ (t, e) ∈ es) ∧ t.Respects ∧ Weigher.Respects .unit ∧
      session.groups = ∅ ∧ session.facts.Pairwise (fun a b => a.handle < b.handle) ∧
      ∀ visits, ∃ ms, (session.evaluate (e.toPlan .unit) visits).1 = .ok ms ∧
        List.Forall₂ (fun m x => m.values == x ∧ m.weight == Weigher.unit.weigh x) ms
          (t.rows session.facts) := by
  intro t source key total group log e history session
  obtain ⟨s, groups⟩ : ∃ s, ((Sample.pairs (valueAt 0)).groupBy ⟨1⟩
      ⟨[valueAt 0], [⟨.count, valueAt 0⟩]⟩).Yields Sample.afterPairs e s := ⟨_, rfl⟩
  have built := (Sample.built_pairs (valueAt 0)).groupBy (.head _) groups
  have at_first : TupleFunction.Respects (valueAt 0) := respects_valueAt 0
  have joiner_respects : Joiner.Respects (.comparing .equal ⟨valueAt 0, id⟩) :=
    ⟨at_first, fun _ _ h => h⟩
  have count_respects : Collector.Respects ⟨.count, valueAt 0⟩ := ⟨at_first, trivial⟩
  have respects : t.Respects :=
    ⟨⟨trivial, trivial, List.forall_mem_singleton.2 joiner_respects⟩,
      List.forall_mem_singleton.2 at_first, List.forall_mem_singleton.2 count_respects⟩
  have unit_respects : Weigher.Respects .unit := trivial
  exact ⟨⟨s, _, built, .head _⟩, respects, unit_respects, rfl,
    evaluate_toPlan built (.head _) respects unit_respects history rfl⟩

end Session

end MatchAlgebra
