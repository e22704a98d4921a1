import MatchAlgebra.Proofs.Grouped

/-!
# Fused collectors

One grouping with many collectors finds what many groupings with one collector each find.  Every
plan keeps partitions of its own, and they may be evaluated at different moments of a history, as
long as the facts are the same then:

    fused       keys  r₁ ... rₖ  facts
    singles[i]  keys  rᵢ         facts                          (Session.fusion_independent)

The partitions need not be compared.  Both answers can be told from the matches of the expression
that is grouped, and these are a function of the facts (`Session.evaluate_groups`).
-/

namespace MatchAlgebra

/-- A match of a grouping with many collectors agrees with one of the grouping with only the
collector at an index: in the facts, in the keys and in what the collector has found. -/
structure Match.AgreesAt (keys collectors index : Nat) (m single : Match) : Prop where
  facts : m.facts = single.facts
  width : m.values.length = keys + collectors
  single_width : single.values.length = keys + 1
  keys_eq : (m.values.take keys == single.values.take keys) = true
  result : ∃ r r', m.values[keys + index]? = some r ∧ single.values[keys]? = some r' ∧
    (r == r') = true

/-- It is enough that both show one row of keys, the facts of which are the same. -/
theorem Match.agreesAt_of_view {keys results : List Value} {r : Value} {facts : List Nat}
    {index : Nat} {m single : Match} (hm : m.view = Traced.view (keys ++ results, facts))
    (hsingle : single.view = Traced.view (keys ++ [r], facts)) (hr : results[index]? = some r) :
    m.AgreesAt keys.length results.length index single := by
  obtain ⟨values, facts_eq⟩ := view_eq_iff.1 hm
  obtain ⟨single_values, single_facts⟩ := view_eq_iff.1 hsingle
  have column : (keys ++ results)[keys.length + index]? = some r := by
    rw [List.getElem?_append_right (Nat.le_add_right _ _), Nat.add_sub_cancel_left, hr]
  have single_column : (keys ++ [r])[keys.length]? = some r := by simp
  obtain ⟨v, hv, value⟩ := Value.getElem?_of_beq values column
  obtain ⟨w, hw, single_value⟩ := Value.getElem?_of_beq single_values single_column
  have keys_same := Value.senses_inj.2 (Value.take_of_beq values)
  have single_keys_same := Value.senses_inj.2 (Value.take_of_beq single_values)
  exact
    { facts := facts_eq.trans single_facts.symm
      width := (List.length_eq_of_beq values).trans List.length_append
      single_width := (List.length_eq_of_beq single_values).trans List.length_append
      keys_eq := Value.senses_inj.1 (keys_same.trans single_keys_same.symm)
      result := ⟨v, w, hv, hw, Value.sense_inj.1
        ((Value.sense_inj.2 value).trans (Value.sense_inj.2 single_value).symm)⟩ }

namespace Session

theorem facts_perform_evaluate (session : Session) (plan : Plan) (visits : Visits) :
    (session.perform (.evaluate plan visits)).facts = session.facts := rfl

/-- At some moment of the history, when the facts were these, the plan has these matches on some
tours. -/
def Found (limit : Nat) (history : List Request) (facts : List Fact) (plan : Plan)
    (ms : List Match) : Prop :=
  ∃ earlier later visits, history = earlier ++ later ∧
    ((start limit).run earlier).facts = facts ∧
    (((start limit).run earlier).evaluate plan visits).1 = .ok ms

section
variable {limit : Nat} {history : List Request} {facts : List Fact}

/-- What a grouping finds at any moment can be told from what the expression has for the facts. -/
theorem Found.regroups {plan : Plan} {t : Term} {e : Expression} {request : GroupRequest}
    (groups : plan.Groups t e request) (respects : (Term.groupBy t request).Respects)
    (identified : Condition.Identified (history.flatMap Request.conditions ++ plan.conditions))
    {ms : List Match} (found : Found limit history facts plan ms) :
    ∃ base, (e.toPlan .unit).derive .afresh facts limit = .ok base ∧
      ms.map Match.view = (request.regroup (base.map Match.traced)).map Traced.view := by
  obtain ⟨earlier, later, visits, rfl, rfl, hms⟩ := found
  rw [List.flatMap_append, List.append_assoc] at identified
  have before : Condition.Identified
      (earlier.flatMap Request.conditions ++ plan.conditions) :=
    identified.mono_right (Condition.partsAll_subset_right _ _)
  exact evaluate_groups groups respects before hms .unit

/-- **Fused collectors find what each finds alone.**  A grouping with many collectors and, for each
of them, the grouping of the same expression by the same keys with it only are evaluated in one
session, after whatever was asked before, at moments when the facts are the same.  If none fails
they have as many matches in the same order, with equal keys and facts, and what a collector found
is the same in both. -/
theorem fusion_independent {t : Term} {e : Expression}
    {keys : List TupleFunction} {collectors : List Collector} {fused : Plan} {singles : List Plan}
    (fuses : fused.Groups t e ⟨keys, collectors⟩)
    (each : List.Forall₂ (fun c single => Plan.Groups t e ⟨keys, [c]⟩ single) collectors singles)
    (respects : (Term.groupBy t ⟨keys, collectors⟩).Respects)
    (identified : Condition.Identified
      (history.flatMap Request.conditions ++ (fused :: singles).flatMap (·.conditions)))
    {ms : List Match} (found : Found limit history facts fused ms) {index : Nat} {single : Plan}
    (hsingle : singles[index]? = some single) {others : List Match}
    (found_single : Found limit history facts single others) :
    List.Forall₂ (Match.AgreesAt keys.length collectors.length index) ms others := by
  obtain ⟨below, rfl⟩ := List.getElem?_eq_some_iff.1 hsingle
  have collected : index < collectors.length := each.length_eq ▸ below
  have groups : Plan.Groups t e ⟨keys, [collectors[index]]⟩ singles[index] :=
    each.get collected below
  have single_respects : (Term.groupBy t ⟨keys, [collectors[index]]⟩).Respects :=
    ⟨respects.1, respects.2.1,
      List.forall_mem_singleton.2 (respects.2.2 _ (List.getElem_mem collected))⟩
  obtain ⟨base, hbase, views⟩ := found.regroups fuses respects (identified.of_mem (.head _))
  obtain ⟨same, hsame, single_views⟩ := found_single.regroups groups single_respects
    (identified.of_mem (.tail _ (List.getElem_mem below)))
  -- both groupings are of the same matches, so they have the same keys and members
  cases hbase.symm.trans hsame
  rw [GroupRequest.regroup, List.map_map] at views single_views
  refine (forall₂_of_map_eq views single_views).imp ?_
  rintro m single ⟨key, hkey, hm, hs⟩
  have result : (GroupRequest.results ⟨keys, collectors⟩ (base.map Match.traced) key)[index]? =
      some (collectors[index].over (((GroupRequest.members ⟨keys, collectors⟩
        (base.map Match.traced) key).map (·.1)))) := by
    rw [GroupRequest.results, List.getElem?_map, List.getElem?_eq_getElem collected]
    rfl
  have agrees := Match.agreesAt_of_view hm hs result
  rw [GroupRequest.length_unpackedKey hkey] at agrees
  have width : (GroupRequest.results ⟨keys, collectors⟩ (base.map Match.traced) key).length =
      collectors.length := List.length_map _
  rwa [width] at agrees

/-- Facts are counted and listed by their value.  Two plans with partitions are asked at different
moments, and in between a fact has moved to another group and back. -/
theorem fusion_independent_moved :
    let counts : Collector := ⟨.count, valueAt 0⟩
    let lists : Collector := ⟨.toSortedList, valueAt 0⟩
    let source : Nat → Variable := fun n => Sample.numbered "source" n (.tuple 1)
    let key : Nat → Variable := fun n => Sample.numbered "groupKey" n .value
    let result : Nat → Variable := fun n => Sample.numbered "result" n .value
    let log : Nat → Nat → List CollectorOutput → Log := fun id n outputs =>
      .link .empty id 1 (.group (id + 1)
        ⟨[Sample.v], some (source n), some ⟨key (n + 1), valueAt 0⟩, outputs⟩
        [Sample.first, .step id (.bind (source n) [Sample.v] wholeTuple)])
    let both : Log := log 2 2 [⟨counts, result 4⟩, ⟨lists, result 5⟩]
    let count : Log := log 4 6 [⟨counts, result 8⟩]
    let list : Log := log 6 9 [⟨lists, result 11⟩]
    let t : Term := .forEach Sample.left
    let fused : Expression := ⟨[⟨key 3, both⟩, ⟨result 4, both⟩], ⟨result 5, both⟩,
      ⟨[key 3, result 4, result 5], both⟩⟩
    let counted : Expression := ⟨[⟨key 7, count⟩], ⟨result 8, count⟩, ⟨[key 7, result 8], count⟩⟩
    let listed : Expression := ⟨[⟨key 10, list⟩], ⟨result 11, list⟩, ⟨[key 10, result 11], list⟩⟩
    let plans : List Plan := [counted.toPlan .unit, listed.toPlan .unit]
    let history : List Request := [.insert Sample.left (.int 7), .insert Sample.left (.int 7),
      .evaluate (fused.toPlan .unit), .update 2 (.int 5), .evaluate (listed.toPlan .unit),
      .update 2 (.int 7)]
    let facts : List Fact := [⟨1, Sample.left, .int 7⟩, ⟨2, Sample.left, .int 7⟩]
    Plan.Groups t Sample.facts ⟨[valueAt 0], [counts, lists]⟩ (fused.toPlan .unit) ∧
      List.Forall₂ (fun c single => Plan.Groups t Sample.facts ⟨[valueAt 0], [c]⟩ single)
        [counts, lists] plans ∧
      (Term.groupBy t ⟨[valueAt 0], [counts, lists]⟩).Respects ∧
      Condition.Identified (history.flatMap Request.conditions ++
        (fused.toPlan .unit :: plans).flatMap (·.conditions)) ∧
      ∃ ms others, Found 0 history facts (fused.toPlan .unit) ms ∧
        Found 0 history facts (listed.toPlan .unit) others ∧
        List.Forall₂ (Match.AgreesAt 1 2 1) ms others := by
  intro counts lists source key result log both count list t fused counted listed plans history
    facts
  let s₂ : Supply :=
    { created := fun scope => if scope = 1 then 5 else if scope = 1 then 4 else
        if scope = 1 then 3 else if scope = 1 then 2 else Sample.afterFacts.created scope
      drawn := 3
      nextNode := 3 }
  let s₃ : Supply :=
    { created := fun scope => if scope = 1 then 8 else if scope = 1 then 7 else
        if scope = 1 then 6 else s₂.created scope
      drawn := 5
      nextNode := 5 }
  let middle : Supply :=
    { created := fun scope => if scope = 1 then 2 else Sample.afterFacts.created scope
      drawn := 2
      nextNode := 2 }
  have makes_fused : (Sample.facts.groupBy ⟨1⟩ ⟨[valueAt 0], [counts, lists]⟩).Yields
      Sample.afterFacts fused s₂ := by
    rw [Expression.groupBy_eq]
    refine Build.bind_yields.2 ⟨(), Sample.afterFacts, rfl, ?_⟩
    refine Build.bind_yields.2 ⟨Sample.facts.log, Sample.afterFacts, rfl, ?_⟩
    exact Build.bind_yields.2 ⟨(some (source 2), _), middle, rfl, rfl⟩
  have makes_counted : (Sample.facts.groupBy ⟨1⟩ ⟨[valueAt 0], [counts]⟩).Yields s₂ counted s₃ :=
    rfl
  obtain ⟨s₄, makes_listed⟩ : ∃ s₄, (Sample.facts.groupBy ⟨1⟩ ⟨[valueAt 0], [lists]⟩).Yields s₃
      listed s₄ := ⟨_, rfl⟩
  have built_fused := Sample.built_facts.groupBy (.head _) makes_fused
  have built_counted := built_fused.groupBy (.tail _ (.head _)) makes_counted
  let es : List (Term × Expression) := [(.groupBy t ⟨[valueAt 0], [lists]⟩, listed),
    (.groupBy t ⟨[valueAt 0], [counts]⟩, counted),
    (.groupBy t ⟨[valueAt 0], [counts, lists]⟩, fused), (t, Sample.facts)]
  have built : Built s₄ es := built_counted.groupBy (.tail _ (.tail _ (.head _))) makes_listed
  have fuses : Plan.Groups t Sample.facts ⟨[valueAt 0], [counts, lists]⟩ (fused.toPlan .unit) :=
    .intro Sample.built_facts (.head _) makes_fused
  have each : List.Forall₂ (fun c single => Plan.Groups t Sample.facts ⟨[valueAt 0], [c]⟩ single)
      [counts, lists] plans :=
    .cons (.intro built_fused (.tail _ (.head _)) makes_counted)
      (.cons (.intro built_counted (.tail _ (.tail _ (.head _))) makes_listed) .nil)
  have at_first : TupleFunction.Respects (valueAt 0) := respects_valueAt 0
  have respects : (Term.groupBy t ⟨[valueAt 0], [counts, lists]⟩).Respects :=
    ⟨trivial, List.forall_mem_singleton.2 at_first, List.forall_mem_cons.2
      ⟨⟨at_first, trivial⟩, List.forall_mem_singleton.2 ⟨at_first, trivial⟩⟩⟩
  have fused_known : (fused.toPlan .unit).IsOf es := ⟨_, .tail _ (.tail _ (.head _)), .unit, rfl⟩
  have counted_known : (counted.toPlan .unit).IsOf es := ⟨_, .tail _ (.head _), .unit, rfl⟩
  have listed_known : (listed.toPlan .unit).IsOf es := ⟨_, .head _, .unit, rfl⟩
  have asked : ∀ request ∈ history, request.Within es := by
    simp [history, Request.Within, fused_known, listed_known]
  have identified := built.identified_pool asked (List.forall_mem_cons.2 ⟨fused_known,
    List.forall_mem_cons.2 ⟨counted_known, List.forall_mem_singleton.2 listed_known⟩⟩)
  have early : ∀ request ∈ history.take 2, request.Within es :=
    fun request hrequest => asked request (List.mem_of_mem_take hrequest)
  obtain ⟨ms, hms⟩ := built.exists_matches early fused_known .ascending
  obtain ⟨others, hothers⟩ := built.exists_matches asked listed_known .descending
  have found : Found 0 history facts (fused.toPlan .unit) ms :=
    ⟨history.take 2, history.drop 2, _, (List.take_append_drop 2 history).symm, rfl, hms⟩
  have back : ((start 0).run history).facts = facts := by
    simp only [history, run, List.foldl_cons, List.foldl_nil, perform_update,
      facts_perform_evaluate]
    rfl
  have found_listed : Found 0 history facts (listed.toPlan .unit) others :=
    ⟨history, [], _, (List.append_nil history).symm, back, hothers⟩
  have second : plans[1]? = some (listed.toPlan .unit) := rfl
  exact ⟨fuses, each, respects, identified, ms, others, found, found_listed,
    fusion_independent fuses each respects identified found second found_listed⟩

end

end Session

end MatchAlgebra
