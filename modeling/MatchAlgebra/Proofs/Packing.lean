import MatchAlgebra.Proofs.Grouped

/-!
# Packed keys

A grouping by several keys packs them into one key and takes the groups apart again.  The key
columns of its matches are the different vectors of keys in ascending order:

    columns of ms = sort (distinct (base.map (keys at x)))            (GroupRequest.columns_of_view)

So each match of the expression belongs to exactly one of them (`GroupRequest.Splits`), and all is
as if the expression had been grouped by the packed key (`Session.packed_keys_split`).
-/

namespace MatchAlgebra

/-! ## Spelling of the rows that are grouped -/

theorem respects_packedKey {keys : List TupleFunction}
    (h : ∀ key ∈ keys, TupleFunction.Respects key) : TupleFunction.Respects (packedKey keys) := by
  intro as bs hab
  rw [packedKey_beq]
  exact respects_keyTuple h as bs hab

theorem senses_unpackedKey (keys : List TupleFunction) {k k' : Value} (h : k.sense = k'.sense) :
    (unpackedKey keys k).map Value.sense = (unpackedKey keys k').map Value.sense := by
  rcases keys with _ | ⟨key, _ | ⟨key', keys⟩⟩
  · rfl
  · exact congrArg ([·]) h
  · exact Value.senses_components h

namespace GroupRequest

section
variable {request : GroupRequest} {rows others : List Traced}
  (keys_respect : ∀ key ∈ request.keys, TupleFunction.Respects key)
  (same : List.Forall₂ (fun p q : Traced => p.view = q.view) rows others)
include keys_respect same

theorem senses_keysOf : (request.keysOf rows).map Value.sense =
    (request.keysOf others).map Value.sense := by
  have keys : (rows.map (packedKey request.keys ·.1)).map Value.sense =
      (others.map (packedKey request.keys ·.1)).map Value.sense := by
    rw [List.map_map, List.map_map, map_eq_map_iff]
    exact same.imp fun p q hpq => (respects_packedKey keys_respect).sense (Prod.mk.inj hpq).1
  rw [keysOf, keysOf, Value.senses_sort, Value.senses_sort, Value.senses_distinct,
    Value.senses_distinct, keys]

theorem members_view {k k' : Value} (h : k.sense = k'.sense) :
    List.Forall₂ (fun p q : Traced => p.view = q.view) (request.members rows k)
      (request.members others k') := by
  rw [members, members]
  refine List.rel_filter (fun p q hpq => ?_) same
  show (packedKey request.keys p.1 == k) = true ↔ (packedKey request.keys q.1 == k') = true
  rw [← Value.sense_beq, ← Value.sense_beq,
    (respects_packedKey keys_respect).sense (Prod.mk.inj hpq).1, h]

/-- Grouping takes no notice of how values are spelled. -/
theorem regroup_view (collectors_respect : ∀ c ∈ request.collectors, c.Respects) :
    (request.regroup rows).map Traced.view = (request.regroup others).map Traced.view := by
  rw [regroup, regroup, List.map_map, List.map_map, map_eq_map_iff]
  refine (map_eq_map_iff.1 (senses_keysOf keys_respect same)).imp fun k k' hk => ?_
  have members := members_view keys_respect same hk
  have results : (request.results rows k).map Value.sense =
      (request.results others k').map Value.sense := by
    rw [GroupRequest.results, GroupRequest.results, List.map_map, List.map_map]
    refine List.map_congr_left fun c hc => ?_
    refine Measure.over_congr (collectors_respect c hc).lawful (List.Perm.of_eq ?_)
    simp only [List.map_map, map_eq_map_iff]
    exact members.imp fun p q hpq => (collectors_respect c hc).mapping.sense (Prod.mk.inj hpq).1
  have facts : (request.members rows k).map (·.2) = (request.members others k').map (·.2) :=
    map_eq_map_iff.2 (members.imp fun p q hpq => (Prod.mk.inj hpq).2)
  refine Prod.ext ?_ ?_
  · show (unpackedKey request.keys k ++ request.results rows k).map Value.sense =
      (unpackedKey request.keys k' ++ request.results others k').map Value.sense
    rw [List.map_append, List.map_append, senses_unpackedKey request.keys hk, results]
  · show request.factsUnder rows k = request.factsUnder others k'
    rw [factsUnder, factsUnder, List.flatMap_def, List.flatMap_def, facts]

end

/-! ## Groups split what is grouped -/

/-- The key columns of a match of the grouping are the keys at a match of the expression. -/
def covers (request : GroupRequest) (m x : Match) : Bool :=
  m.values.take request.keys.length == request.keys.map fun key => key x.values

/-- The matches of a grouping split those of the expression.  They stand in the order of their key
columns, which are all different, and each of them is made of the matches that it covers. -/
structure Splits (request : GroupRequest) (base ms : List Match) : Prop where
  ascending : ms.Pairwise fun a b => Value.compareAll (a.values.take request.keys.length)
    (b.values.take request.keys.length) = .lt
  different : ms.Pairwise fun a b =>
    (a.values.take request.keys.length == b.values.take request.keys.length) = false
  once : ∀ x ∈ base, ms.countP (request.covers · x) = 1
  inhabited : ∀ m ∈ ms, ∃ x ∈ base, request.covers m x = true
  results : ∀ m ∈ ms, (m.values.drop request.keys.length == request.collectors.map
    (·.over ((base.filter (request.covers m)).map (·.values)))) = true
  facts : ∀ m ∈ ms, m.facts = HandleSet.ascending ((base.filter (request.covers m)).flatMap
    (·.facts))

/-- The key columns of a match as one value, up to spelling. -/
def columns (request : GroupRequest) (m : Match) : Sense :=
  (Value.tuple (m.values.take request.keys.length)).sense

section
variable {request : GroupRequest} {base ms : List Match}

theorem columns_lt_iff {a b : Match} : request.columns a < request.columns b ↔
    Value.compareAll (a.values.take request.keys.length) (b.values.take request.keys.length) =
      .lt := Sense.lt_iff

theorem columns_eq_iff {a b : Match} : request.columns a = request.columns b ↔
    (a.values.take request.keys.length == b.values.take request.keys.length) = true := by
  rw [columns, columns, Value.sense_inj, ← Value.beqAll_eq]
  exact Iff.rfl

theorem covers_eq (m x : Match) :
    request.covers m x = (request.columns m == (keyTuple request.keys x.values).sense) := by
  rw [columns, Value.sense_beq, covers, ← Value.beqAll_eq]
  rfl

theorem members_traced_eq {key : Value} {m : Match} {z : List Value}
    (hm : request.columns m = (keyTuple request.keys z).sense)
    (hkey : key = packedKey request.keys z) :
    request.members (base.map Match.traced) key =
      (base.filter (request.covers m)).map Match.traced := by
  rw [members, List.filter_map]
  congr 1
  refine List.filter_congr fun x _ => ?_
  rw [covers_eq, hm, Value.sense_beq, hkey]
  exact (packedKey_beq request.keys x.values z).trans (BEq.comm ..)

/-- Every match of the grouping has the keys of some tuple, and then shows its group.  These tuples
stand for the different vectors of keys in ascending order. -/
theorem exists_groups_of_view
    (h : ms.map Match.view = (request.regroup (base.map Match.traced)).map Traced.view) :
    ∃ zs : List (List Value),
      Value.sort (Value.distinct (base.map fun x => keyTuple request.keys x.values)) =
        zs.map (keyTuple request.keys) ∧
      List.Forall₂ (fun m z => request.columns m = (keyTuple request.keys z).sense ∧
        (m.values.drop request.keys.length == request.collectors.map
          (·.over ((base.filter (request.covers m)).map (·.values)))) = true ∧
        m.facts = HandleSet.ascending ((base.filter (request.covers m)).flatMap (·.facts)))
        ms zs := by
  obtain ⟨zs, packed, vectors⟩ := request.exists_keysOf (base.map Match.traced)
  rw [List.map_map] at vectors
  rw [regroup, packed, List.map_map, List.map_map, map_eq_map_iff] at h
  refine ⟨zs, vectors, h.imp fun m z hm => ?_⟩
  obtain ⟨values, facts⟩ := Match.view_eq_iff.1 hm
  dsimp only [Function.comp_apply] at values facts
  rw [unpackedKey_packedKey] at values
  have length : (keyTuple request.keys z).components.length = request.keys.length :=
    List.length_map _
  have columns : request.columns m = (keyTuple request.keys z).sense := by
    have keys := Value.take_of_beq values
    rw [length] at keys
    exact Value.sense_tuple (Value.senses_inj.2 keys)
  have members : request.members (base.map Match.traced) (packedKey request.keys z) =
      (base.filter (request.covers m)).map Match.traced := members_traced_eq columns rfl
  refine ⟨columns, ?_, ?_⟩
  · have results := Value.drop_of_beq values
    rw [length, GroupRequest.results, members, List.map_map] at results
    exact results
  · rw [factsUnder, members, List.flatMap_map] at facts
    exact facts

/-- The key columns are the different vectors of keys in ascending order. -/
theorem columns_of_view
    (h : ms.map Match.view = (request.regroup (base.map Match.traced)).map Traced.view) :
    ms.map request.columns = (Value.sort (Value.distinct
      (base.map fun x => keyTuple request.keys x.values))).map Value.sense := by
  obtain ⟨zs, vectors, groups⟩ := exists_groups_of_view h
  rw [vectors, List.map_map, map_eq_map_iff]
  exact groups.imp fun m z hm => hm.1

theorem splits_of_view
    (h : ms.map Match.view = (request.regroup (base.map Match.traced)).map Traced.view) :
    request.Splits base ms := by
  have columns := columns_of_view h
  have ascending : (ms.map request.columns).Pairwise (· < ·) := by
    rw [columns]
    exact Value.ascending_senses_sort_distinct _
  have mem_columns : ∀ s, s ∈ ms.map request.columns ↔
      s ∈ base.map fun x => (keyTuple request.keys x.values).sense := by
    intro s
    rw [columns, Value.mem_senses_sort_distinct, List.map_map]
    rfl
  have nodup : (ms.map request.columns).Nodup := ascending.imp fun hlt heq => hlt.ne heq
  obtain ⟨zs, -, groups⟩ := exists_groups_of_view h
  exact
    { ascending := (List.pairwise_map.1 ascending).imp columns_lt_iff.1
      different := (List.pairwise_map.1 nodup).imp fun hne =>
        Bool.eq_false_iff.2 fun heq => hne (columns_eq_iff.2 heq)
      once := fun x hx => by
        have counted := List.count_eq_one_of_mem nodup
          ((mem_columns _).2 (List.mem_map_of_mem hx))
        rw [List.count, List.countP_map] at counted
        rw [← counted]
        exact List.countP_congr fun m _ => by rw [covers_eq, Function.comp_apply]
      inhabited := fun m hm => by
        obtain ⟨x, hx, same⟩ := List.mem_map.1 ((mem_columns _).1 (List.mem_map_of_mem hm))
        refine ⟨x, hx, ?_⟩
        rw [covers_eq, same]
        exact BEq.rfl
      results := fun m hm => by
        obtain ⟨z, -, -, results, -⟩ := exists_related_of_mem groups.flip hm
        exact results
      facts := fun m hm => by
        obtain ⟨z, -, -, -, facts⟩ := exists_related_of_mem groups.flip hm
        exact facts }

end

end GroupRequest

/-! ## The packed key -/

/-- A match of the grouping by several keys is one of the grouping by the packed key that has been
taken apart. -/
structure Match.Unpacks (keys : Nat) (packed m : Match) : Prop where
  facts : m.facts = packed.facts
  split : ∃ key results, packed.values = key :: results ∧ key.components.length = keys ∧
    (m.values == key.components ++ results) = true

/-- It is enough that both show one row with a packed key. -/
theorem Match.unpacks_of_view {key : Value} {results : List Value} {facts : List Nat}
    {packed m : Match} (hpacked : packed.view = Traced.view (key :: results, facts))
    (hm : m.view = Traced.view (key.components ++ results, facts)) :
    Match.Unpacks key.components.length packed m := by
  obtain ⟨packed_values, packed_facts⟩ := Prod.mk.inj hpacked
  obtain ⟨values, facts_eq⟩ := Prod.mk.inj hm
  obtain ⟨v, vs, hvs, hv, rest⟩ := List.map_eq_cons_iff.1 packed_values
  have parts := Value.senses_components hv
  refine ⟨facts_eq.trans packed_facts.symm, v, vs, hvs, ?_, ?_⟩
  · simpa using congrArg List.length parts
  · rw [← Value.senses_inj, values, List.map_append, List.map_append, parts, rest]

theorem unpackedKey_of_several {keys : List TupleFunction} (several : 2 ≤ keys.length)
    (key : Value) : unpackedKey keys key = key.components := by
  rcases keys with _ | ⟨k, _ | ⟨k', keys⟩⟩
  · simp at several
  · simp at several
  · rfl

namespace GroupRequest

variable {request : GroupRequest}

/-- The same request with all keys packed into one. -/
def packed (request : GroupRequest) : GroupRequest :=
  ⟨[keyTuple request.keys], request.collectors⟩

/-- The grouping by the packed key has the same groups. -/
theorem regroup_packed (several : 2 ≤ request.keys.length) (rows : List Traced) :
    request.regroup rows = (request.keysOf rows).map (fun key =>
        (key.components ++ request.results rows key, request.factsUnder rows key)) ∧
      request.packed.regroup rows = (request.keysOf rows).map fun key =>
        (key :: request.results rows key, request.factsUnder rows key) := by
  obtain ⟨keys, collectors⟩ := request
  rcases keys with _ | ⟨key, _ | ⟨key', keys⟩⟩
  · simp at several
  · simp at several
  · exact ⟨rfl, rfl⟩

theorem unpacks_of_views (several : 2 ≤ request.keys.length) {rows : List Traced}
    {ms packed : List Match} (h : ms.map Match.view = (request.regroup rows).map Traced.view)
    (hpacked : packed.map Match.view = (request.packed.regroup rows).map Traced.view) :
    List.Forall₂ (Match.Unpacks request.keys.length) packed ms := by
  obtain ⟨unpacks, packs⟩ := regroup_packed several rows
  rw [unpacks, List.map_map] at h
  rw [packs, List.map_map] at hpacked
  refine (forall₂_of_map_eq hpacked h).imp ?_
  rintro p m ⟨key, hkey, hp, hm⟩
  have length : key.components.length = request.keys.length := by
    rw [← unpackedKey_of_several several key, length_unpackedKey hkey]
  exact length ▸ Match.unpacks_of_view hp hm

end GroupRequest

/-! ## Answers of a session -/

/-- If there are not too many groups there are not too many by the packed key. -/
theorem Plan.Groups.packed_derive {t : Term} {e : Expression} {request : GroupRequest}
    (several : 2 ≤ request.keys.length) {grouped packed : Plan}
    (groups : grouped.Groups t e request) (packs : packed.Groups t e request.packed)
    {facts : List Fact} {limit : Nat} {ms : List Match}
    (h : grouped.derive .afresh facts limit = .ok ms) :
    ∃ ps, packed.derive .afresh facts limit = .ok ps := by
  obtain ⟨base, hbase⟩ := groups.exists_operand .unit h
  have length : (request.packed.regroup (base.map Match.traced)).length =
      (request.regroup (base.map Match.traced)).length := by
    obtain ⟨unpacks, packs⟩ := GroupRequest.regroup_packed several (base.map Match.traced)
    rw [unpacks, packs, List.length_map, List.length_map]
  rcases groups.derive hbase with ⟨-, -, fails⟩ | ⟨few, -⟩
  · cases fails.symm.trans h
  · rw [← length] at few
    rcases packs.derive hbase with ⟨positive, many, -⟩ | ⟨-, ps, hps, -⟩
    · exact absurd ⟨positive, many⟩ few
    · exact ⟨ps, hps⟩

namespace Session

section
variable {limit : Nat} {history : List Request}

/-- The answer to a grouping can be told from the answer to the expression. -/
theorem evaluate_regroups {t : Term} {e : Expression} {request : GroupRequest} {plan : Plan}
    (groups : plan.Groups t e request) (respects : (Term.groupBy t request).Respects)
    (identified : Condition.Identified (history.flatMap Request.conditions ++ plan.conditions))
    {visits : Visits} {ms : List Match}
    (hms : (((start limit).run history).evaluate plan visits).1 = .ok ms) (w : Weigher)
    (visits' : Visits) :
    ∃ base, (((start limit).run history).evaluate (e.toPlan w) visits').1 = .ok base ∧
      ms.map Match.view = (request.regroup (base.map Match.traced)).map Traced.view := by
  obtain ⟨made, hmade, views⟩ := evaluate_groups groups respects identified hms w
  have answers : (((start limit).run history).evaluate (e.toPlan w) visits').1.map
      (·.map Match.view) = _ :=
    evaluate_views (identified.mono_right (groups.operand_parts w))
      (groups.operand_respects respects.1 w) visits'
  obtain ⟨base, hbase, same⟩ := exists_ok_of_map_eq answers.symm hmade
  refine ⟨base, hbase, views.trans (GroupRequest.regroup_view respects.2.1 ?_ respects.2.2)⟩
  rw [List.forall₂_map_left_iff, List.forall₂_map_right_iff]
  exact map_eq_map_iff.1 same

/-- **Grouping by several keys is grouping by their vectors.**  If a grouping by several keys has
matches then so has the expression.  They split the matches of the expression by the vectors of
their keys.  They are those of the grouping by the packed key, taken apart.  Each of the three may
be evaluated on tours of its own. -/
theorem packed_keys_split {t : Term} {e : Expression} {request : GroupRequest}
    (several : 2 ≤ request.keys.length) {grouped packed : Plan}
    (groups : grouped.Groups t e request) (packs : packed.Groups t e request.packed)
    (respects : (Term.groupBy t request).Respects)
    (identified : Condition.Identified
      (history.flatMap Request.conditions ++ [grouped, packed].flatMap (·.conditions)))
    {visits : Visits} {ms : List Match}
    (hms : (((start limit).run history).evaluate grouped visits).1 = .ok ms) (w : Weigher)
    (base_visits packed_visits : Visits) :
    ∃ base ps, (((start limit).run history).evaluate (e.toPlan w) base_visits).1 = .ok base ∧
      (((start limit).run history).evaluate packed packed_visits).1 = .ok ps ∧
      request.Splits base ms ∧ List.Forall₂ (Match.Unpacks request.keys.length) ps ms := by
  have packed_respects : (Term.groupBy t request.packed).Respects :=
    ⟨respects.1, List.forall_mem_singleton.2 (respects_keyTuple respects.2.1), respects.2.2⟩
  have grouped_identified : Condition.Identified
      (history.flatMap Request.conditions ++ grouped.conditions) := identified.of_mem (.head _)
  have packed_identified : Condition.Identified
      (history.flatMap Request.conditions ++ packed.conditions) :=
    identified.of_mem (.tail _ (.head _))
  obtain ⟨made, hmade, -⟩ :=
    exists_ok_of_map_eq (evaluate_views grouped_identified (groups.respects respects) visits) hms
  obtain ⟨packed_made, hpacked⟩ := groups.packed_derive several packs hmade
  obtain ⟨ps, hps, -⟩ := exists_ok_of_map_eq
    (evaluate_views packed_identified (packs.respects packed_respects) packed_visits).symm hpacked
  obtain ⟨base, hbase, views⟩ :=
    evaluate_regroups groups respects grouped_identified hms w base_visits
  obtain ⟨same, hsame, packed_views⟩ :=
    evaluate_regroups packs packed_respects packed_identified hps w base_visits
  cases hbase.symm.trans hsame
  exact ⟨base, ps, hbase, hps, GroupRequest.splits_of_view views,
    GroupRequest.unpacks_of_views several views packed_views⟩

/-- Facts are counted by their value and by whether they are null.  Between two evaluations one of
them changes its group. -/
theorem packed_keys_split_moved :
    let is_null : TupleFunction := fun xs => .bool (valueAt 0 xs == .null)
    let counts : Collector := ⟨.count, valueAt 0⟩
    let request : GroupRequest := ⟨[valueAt 0, is_null], [counts]⟩
    let source : Nat → Variable := fun n => Sample.numbered "source" n (.tuple 1)
    let key : Nat → VariableType → Variable := Sample.numbered "groupKey"
    let result : Nat → Variable := fun n => Sample.numbered "result" n .value
    let group : Nat → Nat → VariableType → Condition := fun id n type =>
      .group (id + 1) ⟨[Sample.v], some (source n), some ⟨key (n + 1) type, keyTuple request.keys⟩,
        [⟨counts, result (n + 2)⟩]⟩
        [Sample.first, .step id (.bind (source n) [Sample.v] wholeTuple)]
    let first : Condition := .step 4 (.bind (key 5 .value) [key 3 (.tuple 2)] (keyComponent 0))
    let second : Condition := .step 5 (.bind (key 6 .value) [key 3 (.tuple 2)] (keyComponent 1))
    let log : Log := .link (.link .empty 2 1 (group 2 2 (.tuple 2))) 3 2 first
    let full : Log := .link log 4 3 second
    let packed : Log := .link .empty 6 1 (group 6 7 .value)
    let t : Term := .forEach Sample.left
    let by_both : Expression := ⟨[⟨key 5 .value, log⟩, ⟨key 6 .value, full⟩], ⟨result 4, full⟩,
      ⟨[key 5 .value, key 6 .value, result 4], full⟩⟩
    let by_packed : Expression :=
      ⟨[⟨key 8 .value, packed⟩], ⟨result 9, packed⟩, ⟨[key 8 .value, result 9], packed⟩⟩
    let history : List Request := [.insert Sample.left (.int 7), .insert Sample.left .null,
      .insert Sample.left (.int 7), .evaluate (by_both.toPlan .unit), .update 1 .null]
    let session := (start 0).run history
    2 ≤ request.keys.length ∧
      Plan.Groups t Sample.facts request (by_both.toPlan .unit) ∧
      Plan.Groups t Sample.facts request.packed (by_packed.toPlan .unit) ∧
      (Term.groupBy t request).Respects ∧
      Condition.Identified (history.flatMap Request.conditions ++
        [by_both.toPlan .unit, by_packed.toPlan .unit].flatMap (·.conditions)) ∧
      ∃ ms base ps, (session.evaluate (by_both.toPlan .unit)).1 = .ok ms ∧
        (session.evaluate (Sample.facts.toPlan .unit)).1 = .ok base ∧
        (session.evaluate (by_packed.toPlan .unit) .descending).1 = .ok ps ∧
        request.Splits base ms ∧ List.Forall₂ (Match.Unpacks 2) ps ms := by
  intro is_null counts request source key result group first second log full packed t by_both
    by_packed history session
  let with_source : Supply :=
    { created := fun scope => if scope = 1 then 2 else Sample.afterFacts.created scope
      drawn := 2
      nextNode := 2 }
  let with_key : Supply := { with_source with
    created := fun scope => if scope = 1 then 3 else with_source.created scope }
  let with_result : Supply := { with_key with
    created := fun scope => if scope = 1 then 4 else with_key.created scope }
  let with_group : Supply := { with_result with drawn := 3 }
  let with_log : Supply := { with_group with nextNode := 3 }
  let s₂ : Supply :=
    { created := fun scope => if scope = 1 then 6 else if scope = 1 then 5 else
        with_result.created scope
      drawn := 5
      nextNode := 5 }
  have makes : (Sample.facts.groupBy ⟨1⟩ request).Yields Sample.afterFacts by_both s₂ := by
    rw [Expression.groupBy_eq]
    refine Build.bind_yields.2 ⟨(), Sample.afterFacts, rfl, ?_⟩
    refine Build.bind_yields.2 ⟨Sample.facts.log, Sample.afterFacts, rfl, ?_⟩
    refine Build.bind_yields.2 ⟨(some (source 2), _), with_source, rfl, ?_⟩
    refine Build.bind_yields.2 ⟨_, with_key, rfl, ?_⟩
    refine Build.bind_yields.2 ⟨_, with_result, rfl, ?_⟩
    refine Build.bind_yields.2 ⟨group 2 2 (.tuple 2), with_group, rfl, ?_⟩
    refine Build.bind_yields.2 ⟨_, with_log, rfl, ?_⟩
    exact Build.bind_yields.2 ⟨(full, _), s₂, rfl, rfl⟩
  obtain ⟨s₃, makes_packed⟩ : ∃ s₃, (Sample.facts.groupBy ⟨1⟩ request.packed).Yields s₂ by_packed
      s₃ := ⟨_, rfl⟩
  have built_both := Sample.built_facts.groupBy (.head _) makes
  let es : List (Term × Expression) := [(.groupBy t request.packed, by_packed),
    (.groupBy t request, by_both), (t, Sample.facts)]
  have built : Built s₃ es := built_both.groupBy (.tail _ (.head _)) makes_packed
  have groups : Plan.Groups t Sample.facts request (by_both.toPlan .unit) :=
    .intro Sample.built_facts (.head _) makes
  have packs : Plan.Groups t Sample.facts request.packed (by_packed.toPlan .unit) :=
    .intro built_both (.tail _ (.head _)) makes_packed
  have at_first : TupleFunction.Respects (valueAt 0) := respects_valueAt 0
  have null_respects : TupleFunction.Respects is_null := by
    intro as bs hab
    have same : (valueAt 0 as == .null) = (valueAt 0 bs == .null) := by
      rw [← Value.sense_beq, ← Value.sense_beq, Value.sense_inj.2 (at_first as bs hab)]
    show (Value.bool (valueAt 0 as == .null) == .bool (valueAt 0 bs == .null)) = true
    rw [same]
    exact BEq.rfl
  have respects : (Term.groupBy t request).Respects :=
    ⟨trivial, List.forall_mem_cons.2 ⟨at_first, List.forall_mem_singleton.2 null_respects⟩,
      List.forall_mem_singleton.2 ⟨at_first, trivial⟩⟩
  have known : (by_both.toPlan .unit).IsOf es := ⟨_, .tail _ (.head _), .unit, rfl⟩
  have packed_known : (by_packed.toPlan .unit).IsOf es := ⟨_, .head _, .unit, rfl⟩
  have asked : ∀ request ∈ history, request.Within es := by
    simp [history, Request.Within, known]
  have identified := built.identified_pool asked
    (List.forall_mem_cons.2 ⟨known, List.forall_mem_singleton.2 packed_known⟩)
  have several : 2 ≤ request.keys.length := Nat.le_refl 2
  obtain ⟨ms, hms⟩ := built.exists_matches asked known .ascending
  obtain ⟨base, ps, hbase, hps, splits, unpacks⟩ :=
    packed_keys_split several groups packs respects identified hms .unit .ascending .descending
  exact ⟨several, groups, packs, respects, identified, ms, base, ps, hms, hbase, hps, splits,
    unpacks⟩

end

end Session

end MatchAlgebra
