import MatchAlgebra.Proofs.Lockstep

/-!
# Flattened terms mean what the terms say

Evaluation without memory or limit gives one row of bindings for each row of the term, in the same
order, and reading the visible variables gives the row:

    Reads facts cs vs xs  ↔  ∃ rows, deriveAll .afresh facts 0 [empty] cs = .ok rows ∧
      Forall₂ (fun row x => row.read vs = .ok x) rows xs
    Flat t cs vs  →  Reads facts cs vs (t.rows facts)                    (Flat.reads)

A filter keeps rows in step with the list it filters.  A join makes the product of the rows of its
operands, whose variables do not meet, and filters it.  A flattened term has only functions of the
term and of the library, so it respects equality if the term does (`Flat.respects`).
-/

namespace MatchAlgebra

/-! ## Rows -/

/-- Evaluated by themselves the conditions give one row for each element, which reads as it. -/
def Reads (facts : List Fact) (cs : List Condition) (vs : List Variable)
    (xs : List (List Value)) : Prop :=
  ∃ rows, Condition.deriveAll .afresh facts 0 [Row.empty] cs = .ok rows ∧
    List.Forall₂ (fun row x => row.read vs = .ok x) rows xs

section
variable {facts : List Fact} {cs ds : List Condition} {c : Condition} {vs : List Variable}
  {xs ys : List (List Value)}

theorem reads_pattern (facts : List Fact) {type : FactType} {bound : Variable}
    (binds : c.Does (.pattern bound type)) :
    Reads facts [c] [bound] ((factsOf facts type).map fun fact => [fact.value]) := by
  obtain ⟨id, rfl⟩ := binds
  refine ⟨(factsOf facts type).map (Row.empty.bindFact bound), ?_, ?_⟩
  · rw [Condition.deriveAll, Condition.derive, Step.apply, Row.cross_zero,
      List.flatMap_singleton]
    rfl
  · rw [List.forall₂_map_left_iff, List.forall₂_map_right_iff, List.forall₂_same]
    intro fact _
    rw [Row.read, Row.bindFact]
    show (do let value ← (Row.empty.bind bound fact.value).get bound; _) = _
    rw [Row.get_bind, if_pos rfl]
    rfl

namespace Reads

theorem keep (h : Reads facts cs vs xs) {step : Step} {p : List Value → Bool} (does : c.Does step)
    (keeps : Step.Keeps facts (fun row x => row.read vs = .ok x) step p) :
    Reads facts (cs ++ [c]) vs (xs.filter p) := by
  obtain ⟨rows, hrows, hstep⟩ := h
  obtain ⟨out, hout, hkept⟩ :=
    Condition.deriveAll_keeps .afresh (.cons does .nil) (.cons keeps .nil) hstep
  refine ⟨out, ?_, ?_⟩
  · rw [Condition.deriveAll_append, hrows]
    exact hout
  · simpa using hkept

theorem filter (h : Reads facts cs vs xs) {predicate : TuplePredicate}
    (tests : c.Does (.filter vs predicate)) :
    Reads facts (cs ++ [c]) vs (xs.filter predicate) := by
  refine h.keep tests fun rows xs h => Row.keep_in_step h fun row x hx => ?_
  rw [hx]
  rfl

theorem existence (h : Reads facts cs vs xs) {test : ExistenceTest} (inputs : test.inputs = vs)
    (tests : c.Does (.existence test)) :
    Reads facts (cs ++ [c]) vs (xs.filter (test.holds facts)) := by
  refine h.keep tests fun rows xs h => Row.keep_in_step h fun row x hx => ?_
  rw [ExistenceTest.passes, inputs, hx]
  rfl

theorem map (h : Reads facts cs vs xs) {function : TupleFunction} {bound : Variable}
    (binds : c.Does (.bind bound vs function)) :
    Reads facts (cs ++ [c]) [bound] (xs.map fun x => [function x]) := by
  obtain ⟨id, rfl⟩ := binds
  obtain ⟨rows, hrows, hstep⟩ := h
  obtain ⟨out, hout, hbound⟩ := Step.bind_in_step facts 0 vs function
    (Q := fun row x => row.read [bound] = .ok [function x]) hstep fun row x hx => by
      refine ⟨x, hx, ?_⟩
      rw [Row.read, Row.get_bind, if_pos rfl]
      rfl
  refine ⟨out, ?_, List.forall₂_map_right_iff.2 hbound⟩
  rw [Condition.deriveAll_append, hrows]
  show Condition.deriveAll .afresh facts 0 rows [_] = _
  rw [Condition.deriveAll, Condition.derive, hout]
  rfl

/-- Conditions on other variables, one after the other, give all pairs. -/
theorem pairs (h : Reads facts cs vs xs) {target : Variable} (h' : Reads facts ds [target] ys)
    (disjoint : ∀ v ∈ vs, ∀ w ∈ ds.flatMap Condition.binds, v.id ≠ w.id) :
    ∃ rows, Condition.deriveAll .afresh facts 0 [Row.empty] (cs ++ ds) = .ok rows ∧
      List.Forall₂ (Row.ReadsPair vs target) rows
        (xs.flatMap fun x => ys.map fun y => (x, y)) := by
  obtain ⟨rows, hrows, hstep⟩ := h
  obtain ⟨others, hothers, hother⟩ := h'
  have within : ∀ row ∈ others,
      row.Within fun id => ∃ w ∈ ds.flatMap Condition.binds, w.id = id := by
    refine Condition.within_deriveAll GroupRows.grouped_afresh (fun v hv => ⟨v, hv, rfl⟩)
      (fun row hrow => ?_) hothers
    rw [List.mem_singleton.1 hrow]
    exact fun b hb => absurd hb List.not_mem_nil
  refine ⟨Row.product rows others, ?_, ?_⟩
  · have product := Condition.deriveAll_product hothers rows
    rw [Row.product_empty] at product
    rw [Condition.deriveAll_append, hrows]
    exact product
  · refine Row.product_in_step hstep ((List.forall₂_and_left _ _).2 ⟨within, hother⟩) ?_
    intro row x other y hx hy
    refine ⟨?_, Row.read_merge hy.2 row⟩
    rw [Row.read_merge_of_within hy.1, hx]
    rintro v hv ⟨w, hw, heq⟩
    exact disjoint v hv w hw heq.symm

theorem join (h : Reads facts cs vs xs) {target : Variable} (h' : Reads facts ds [target] ys)
    (disjoint : ∀ v ∈ vs, ∀ w ∈ ds.flatMap Condition.binds, v.id ≠ w.id) {rule : JoinRule}
    {tests : List Condition}
    (does : List.Forall₂ Condition.Does tests (Expression.joinSteps vs target rule)) :
    Reads facts (cs ++ ds ++ tests) (vs ++ [target]) (xs.flatMap fun x =>
      (ys.filter fun y => rule.holds x (valueAt 0 y)).map (x ++ ·)) := by
  obtain ⟨rows, hrows, hpairs⟩ := h.pairs h' disjoint
  obtain ⟨ps, hps, holds⟩ := Expression.keeps_joinSteps facts vs target rule
  obtain ⟨out, hout, hkept⟩ := Condition.deriveAll_keeps .afresh does hps hpairs
  refine ⟨out, ?_, ?_⟩
  · rw [Condition.deriveAll_append, hrows]
    exact hout
  · have appended : (xs.flatMap fun x =>
        (ys.filter fun y => rule.holds x (valueAt 0 y)).map (x ++ ·)) =
        ((xs.flatMap fun x => ys.map fun y => (x, y)).filter fun z => ps.all (· z)).map
          fun z => z.1 ++ z.2 := by
      simp only [List.filter_flatMap, List.map_flatMap, List.filter_map, List.map_map,
        Function.comp_def, holds]
    rw [appended, List.forall₂_map_right_iff]
    exact hkept.imp fun row z hz => Row.read_append hz.1 hz.2

theorem groupBy (h : Reads facts cs vs xs) {request : GroupRequest}
    {input components : List Condition} {keys : List Variable} {source : Option Variable}
    {key : Option GroupKey} {outputs : List CollectorOutput} (id : Nat)
    (bound : ∀ v ∈ vs, v ∈ cs.flatMap Condition.binds)
    (sources : SourceLayout vs cs request.collectors source input)
    (packs : KeyLayout request.keys key keys components)
    (measures : outputs.map (·.collector) = request.collectors)
    (once : Condition.BindOnce (.group id ⟨vs, source, key, outputs⟩ input :: components)) :
    Reads facts (.group id ⟨vs, source, key, outputs⟩ input :: components)
      (keys ++ outputs.map (·.bound)) (request.groups xs) := by
  obtain ⟨rows, hrows, hstep⟩ := h
  have nodup := packs.nodup_visible rfl once
  have key_fresh := KeyLayout.fresh_outputs rfl once
  have source_fresh := sources.fresh (Condition.BindOnce.group_cons_iff.1 once).1.2 bound
  obtain ⟨inner, hinner, hinput⟩ := sources.in_step source_fresh hrows hstep
  obtain ⟨ks, hks, hkeyed⟩ := Grouping.keyedAll_in_step packs outputs hinput
  have outputs_nodup : ((outputs.map (·.bound)).map (·.id)).Nodup := by
    rw [List.map_append] at nodup
    exact (List.nodup_append.1 nodup).2.1
  obtain ⟨zs, hgroups, hmade⟩ := Grouping.regrouped_in_step key vs measures sources.isSome
    outputs_nodup key_fresh hkeyed
  obtain ⟨out, hout, hread⟩ := packs.in_step facts 0 nodup (KeyLayout.fresh rfl once) hmade
  have grouped : (Condition.group id ⟨vs, source, key, outputs⟩ input).derive .afresh facts 0
      [Row.empty] = .ok (Grouping.regrouped ⟨vs, source, key, outputs⟩ ks) := by
    rw [Condition.derive, hinner]
    show (do let keyed ← Grouping.keyedAll _ inner; _) = _
    rw [hks]
    show Row.cross 0 _ (Grouping.regrouped _ ks) _ = _
    rw [Row.cross_zero, List.flatMap_singleton, funext Row.empty_merge, List.map_id']
  refine ⟨out, ?_, ?_⟩
  · rw [Condition.deriveAll, grouped]
    exact hout
  · rw [hgroups, List.forall₂_map_right_iff]
    exact hread

end Reads

/-- What is laid out as a term, and binds no variable twice, reads as the term. -/
theorem Layout.reads {t : Term} (h : Layout t cs vs) (once : Condition.BindOnce cs)
    (facts : List Fact) : Reads facts cs vs (t.rows facts) := by
  induction h with
  | forEach _ binds => exact reads_pattern facts binds
  | filter _ tests ih => exact (ih once.left).filter tests
  | @join left right joiners rule _ _ _ _ _ left_layout _ _ merged does ihl ihr =>
    have sides := once.left
    have joined := (ihl sides.left).join (ihr sides.right)
      (fun v hv => sides.apart v (left_layout.visible_bound v hv)) does
    simp only [Joiner.merge_holds merged] at joined
    exact joined
  | @existence t quantifier type joiners rule _ _ _ _ _ merged tests ih =>
    have checked := (ih once.left).existence rfl tests
    unfold ExistenceTest.holds at checked
    simp only [Joiner.merge_holds merged] at checked
    exact checked
  | map _ _ binds ih => exact (ih once.left).map binds
  | groupBy id operand _ sources packs measures _ ih =>
    have inside := (Condition.BindOnce.group_cons_iff.1 once).1.2
    exact (ih (sources.bindOnce inside)).groupBy id operand.visible_bound sources packs measures
      once

/-- **A flattened term means what the term says.** -/
theorem Flat.reads {t : Term} (h : Flat t cs vs) (facts : List Fact) :
    Reads facts cs vs (t.rows facts) := h.layout.reads h.once facts

end

/-! ## Respect -/

namespace Condition

theorem respectsAll_append {cs ds : List Condition} :
    RespectsAll (cs ++ ds) ↔ RespectsAll cs ∧ RespectsAll ds := by
  rw [RespectsAll, partsAll_append]
  exact List.forall_mem_append

theorem respectsAll_singleton {id : Nat} {s : Step} :
    RespectsAll [.step id s] ↔ s.Respects := by
  rw [RespectsAll, partsAll, parts, partsAll]
  exact List.forall_mem_singleton

theorem Does.respectsAll {cs : List Condition} {steps : List Step} (h : List.Forall₂ Does cs steps)
    (hs : ∀ s ∈ steps, s.Respects) : RespectsAll cs := by
  induction h with
  | nil => exact fun d hd => absurd hd List.not_mem_nil
  | @cons c s cs steps hc _ ih =>
    obtain ⟨id, rfl⟩ := hc
    obtain ⟨hs, hsteps⟩ := List.forall_mem_cons.1 hs
    have first : RespectsAll [.step id s] := respectsAll_singleton.2 hs
    exact respectsAll_append.2 ⟨first, ih hsteps⟩

end Condition

theorem respects_keyTuple {keys : List TupleFunction}
    (h : ∀ key ∈ keys, TupleFunction.Respects key) : TupleFunction.Respects (keyTuple keys) := by
  intro as bs hab
  refine Value.sense_inj.1 (Value.sense_tuple ?_)
  rw [List.map_map, List.map_map]
  exact List.map_congr_left fun key hkey => Value.sense_inj.2 (h key hkey as bs hab)

theorem keyComponent_eq (index : Nat) (values : List Value) :
    keyComponent index values = valueAt index (valueAt 0 values).components := by
  cases values with
  | nil => rfl
  | cons v values => cases v <;> rfl

theorem respects_keyComponent (index : Nat) : TupleFunction.Respects (keyComponent index) := by
  intro as bs hab
  rw [keyComponent_eq, keyComponent_eq]
  refine respects_valueAt index _ _ (Value.senses_inj.1 (Value.senses_components ?_))
  exact Value.sense_inj.2 (respects_valueAt 0 as bs hab)

theorem JoinPredicates.respects_overPair {filter : JoinPredicates}
    (h : ∀ p ∈ filter, JoinPredicate.Respects p) (degree : Nat) :
    TuplePredicate.Respects (filter.overPair degree) := by
  intro as bs hab
  have front : as.take degree == bs.take degree := by
    rw [← Value.senses_inj, List.map_take, List.map_take, Value.senses_inj.2 hab]
  exact all_eq_of_mem fun p hp => h p hp _ _ _ _ front (respects_valueAt degree as bs hab)

theorem Expression.respects_joinSteps {vs : List Variable} {target : Variable} {rule : JoinRule}
    (h : rule.Respects) {s : Step} (hs : s ∈ Expression.joinSteps vs target rule) :
    s.Respects := by
  rcases List.mem_append.1 hs with hs | hs
  · obtain ⟨c, hc, rfl⟩ := List.mem_map.1 hs
    exact h.comparisons _ (List.fst_mem_of_mem_zipIdx hc)
  · obtain ⟨filter, hfilter, rfl⟩ := List.mem_map.1 hs
    refine JoinPredicates.respects_overPair (fun p hp => h.predicates p ?_) _
    rw [JoinRule.predicates, Option.mem_toList.1 hfilter]
    exact hp

theorem KeyLayout.respects {keys : List TupleFunction} {key : Option GroupKey} {vs : List Variable}
    {cs : List Condition} (h : KeyLayout keys key vs cs)
    (hk : ∀ key ∈ keys, TupleFunction.Respects key) :
    (∀ k ∈ key, TupleFunction.Respects k.function) ∧ Condition.RespectsAll cs := by
  cases h with
  | none => exact ⟨fun k hk => (by cases hk), fun d hd => absurd hd List.not_mem_nil⟩
  | one key =>
    refine ⟨fun k hbound => ?_, fun d hd => absurd hd List.not_mem_nil⟩
    cases hbound
    exact hk key List.mem_cons_self
  | packed several length_eq _ _ binds =>
    refine ⟨fun k hbound => ?_, Condition.Does.respectsAll binds fun s hs => ?_⟩
    · cases hbound
      exact respects_keyTuple hk
    · obtain ⟨⟨v, index⟩, -, rfl⟩ := List.mem_map.1 hs
      exact respects_keyComponent index

theorem SourceLayout.respects {vs : List Variable} {cs input : List Condition}
    {collectors : List Collector} {source : Option Variable}
    (h : SourceLayout vs cs collectors source input) (hcs : Condition.RespectsAll cs) :
    Condition.RespectsAll input := by
  cases h with
  | none => exact hcs
  | some _ binds =>
    obtain ⟨id, rfl⟩ := binds
    exact Condition.respectsAll_append.2
      ⟨hcs, Condition.respectsAll_singleton.2 respects_wholeTuple⟩

/-- The conditions respect equality if the functions of the term do. -/
theorem Layout.respects {t : Term} {cs : List Condition} {vs : List Variable}
    (h : Layout t cs vs) (ht : t.Respects) : Condition.RespectsAll cs := by
  induction h with
  | forEach _ binds =>
    obtain ⟨id, rfl⟩ := binds
    exact Condition.respectsAll_singleton.2 trivial
  | filter operand tests ih =>
    obtain ⟨id, rfl⟩ := tests
    exact Condition.respectsAll_append.2 ⟨ih ht.1, Condition.respectsAll_singleton.2 ht.2⟩
  | join left_layout right_layout _ merged does ihl ihr =>
    refine Condition.respectsAll_append.2
      ⟨Condition.respectsAll_append.2 ⟨ihl ht.1, ihr ht.2.1⟩, ?_⟩
    exact Condition.Does.respectsAll does fun s hs =>
      Expression.respects_joinSteps (Joiner.merge_respects merged ht.2.2) hs
  | existence operand merged tests ih =>
    obtain ⟨id, rfl⟩ := tests
    exact Condition.respectsAll_append.2
      ⟨ih ht.1, Condition.respectsAll_singleton.2 (Joiner.merge_respects merged ht.2)⟩
  | map operand _ binds ih =>
    obtain ⟨id, rfl⟩ := binds
    exact Condition.respectsAll_append.2 ⟨ih ht.1, Condition.respectsAll_singleton.2 ht.2⟩
  | groupBy id operand _ sources packs measures _ ih =>
    obtain ⟨operand_respects, keys_respect, collectors_respect⟩ := ht
    obtain ⟨key_respects, components_respect⟩ := packs.respects keys_respect
    rw [Condition.RespectsAll, Condition.forall_partsAll_cons, Condition.forall_parts_group]
    refine ⟨⟨⟨key_respects, ?_⟩, sources.respects (ih operand_respects)⟩, components_respect⟩
    rw [Grouping.collectors, measures]
    exact collectors_respect

theorem Flat.respects {t : Term} {cs : List Condition} {vs : List Variable} (h : Flat t cs vs)
    (ht : t.Respects) : Condition.RespectsAll cs := h.layout.respects ht

end MatchAlgebra
