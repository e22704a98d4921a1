import MatchAlgebra.Proofs.Grouped
import MatchAlgebra.Proofs.Stages

/-!
# Values that look alike

Equal decimals may be written differently, and a function can tell.  A grouping counts tuples up to
equality, so that a fact which gets an equal value in another spelling brings nothing new, nor does
a second fact with such a value.  What the collectors have been fed is one value for each fact,
equal to that of the fact, which some fact had when the plan was evaluated:

    1.0   1.00   7.0     values of the facts
    1.0   1.0    7.0     values seen               (Session.sorted_list_of_lookAlikes)

So a list of texts can be that of earlier spellings (`Session.respelled_fact_is_missed`).  If a
function does not tell apart the values that facts have had, its list is that of the values as they
are.

What a grouping has been fed was offered by its input when it was evaluated (`Session.fed_run`).
-/

namespace MatchAlgebra

/-! ## What is fed over a history -/

namespace Session

variable {pool : List Condition} {id : Nat} {grouping : Grouping} {input : List Condition}

/-- In an evaluation on these tours a row of the input has this source tuple. -/
def Offers (session : Session) (visits : Visits) (grouping : Grouping) (input : List Condition)
    (source : Value) : Prop :=
  ∃ keyed, Condition.deriveAll (.renewed visits session.groups) session.facts session.maxBindings
    [Row.empty] input >>= grouping.keyedAll = .ok keyed ∧ source ∈ keyed.map (·.source)

/-- One request feeds a grouping at most what its input offers, and only by evaluating it. -/
theorem fed_perform (identified : Condition.Identified pool)
    (mem : .group id grouping input ∈ Condition.partsAll pool) {session : Session}
    {Q : Value → Prop} (h : Partitions.Fed Q grouping.collectors (session.groups.getD id ∅))
    {request : Request}
    (known : ∀ d ∈ Condition.partsAll request.conditions, d ∈ Condition.partsAll pool)
    (offers : ∀ plan visits, request = .evaluate plan visits →
      .group id grouping input ∈ Condition.partsAll plan.conditions →
      ∀ source, session.Offers visits grouping input source → Q source) :
    Partitions.Fed Q grouping.collectors ((session.perform request).groups.getD id ∅) := by
  cases request with
  | insert type value => exact h
  | update handle value =>
    rw [perform_update]
    exact h
  | retract handle =>
    rw [perform_retract]
    exact h
  | evaluate plan visits =>
    have now : session.OnlyEvaluated visits plan.conditions session := ⟨rfl, rfl, .refl _⟩
    rcases (now.evaluate (identified.mono known) fun _ hd => hd).2.ahead id with
      same | ⟨grouping', input', keyed, evaluated, hkeyed, reconciled⟩
    · rw [same]
      exact h
    · cases identified _ (known _ evaluated) _ mem rfl
      rw [reconciled]
      refine h.reconcile fun key source hc => ?_
      exact Partitions.feeds_changes (fun k hk =>
        offers plan visits rfl evaluated _ ⟨keyed, hkeyed, List.mem_map_of_mem hk⟩) _ _ _ hc

/-- When a plan with the grouping was evaluated, a row of the input had this source tuple. -/
def Offered (limit : Nat) (history : List Request) (id : Nat) (grouping : Grouping)
    (input : List Condition) (source : Value) : Prop :=
  ∃ earlier plan visits, earlier ++ [.evaluate plan visits] <+: history ∧
    .group id grouping input ∈ Condition.partsAll plan.conditions ∧
    ((start limit).run earlier).Offers visits grouping input source

/-- What a grouping has been fed was offered at some moment. -/
theorem fed_run (identified : Condition.Identified pool)
    (mem : .group id grouping input ∈ Condition.partsAll pool) (limit : Nat)
    {history : List Request} (known : ∀ request ∈ history,
      ∀ d ∈ Condition.partsAll request.conditions, d ∈ Condition.partsAll pool) :
    Partitions.Fed (Offered limit history id grouping input) grouping.collectors
      (((start limit).run history).groups.getD id ∅) := by
  induction history using List.reverseRecOn with
  | nil => exact Partitions.fed_empty _
  | append_singleton history request ih =>
    obtain ⟨before, last⟩ := List.forall_mem_append.1 known
    rw [run, List.foldl_append]
    refine fed_perform identified mem ((ih before).imp ?_) (List.forall_mem_singleton.1 last) ?_
    · rintro source ⟨earlier, plan, visits, moment, evaluated, offers⟩
      exact ⟨earlier, plan, visits, moment.trans (List.prefix_append _ _), evaluated, offers⟩
    · rintro plan visits rfl evaluated source offers
      exact ⟨history, plan, visits, List.prefix_rfl, evaluated, offers⟩

end Session

/-! ## A grouping without keys -/

namespace Grouping

theorem key_of_keyed {grouping : Grouping} (keyless : grouping.key = none) {row : Row}
    {k : KeyedSource} (h : grouping.keyed row = .ok k) : k.key = .null := by
  rw [keyed_eq, keyOf, keyless] at h
  obtain ⟨key, hkey, h⟩ := bind_eq_ok.1 h
  obtain ⟨source, -, h⟩ := bind_eq_ok.1 h
  cases hkey
  cases h
  rfl

variable {grouping : Grouping} {store : GroupStore} {id : Nat} {Q : Value → Prop}

/-- Rows that all have the null key make one group.  Its collectors measure tuples that they have
been fed, one for each row and equal to that of the row. -/
theorem regroup_of_null (tours : Tours)
    (h : Partitions.Fed Q grouping.collectors (store.getD id ∅))
    (lawful : ∀ c ∈ grouping.collectors, c.measure.Lawful) {keyed : List KeyedSource}
    (null : ∀ k ∈ keyed, k.key = .null) (occupied : keyed ≠ [])
    (offered : ∀ s ∈ keyed.map (·.source), Q s) :
    ∃ key results facts seen,
      ((grouping.regroup tours id keyed).run store).1 = [grouping.groupRow key results facts] ∧
      List.Forall₂ (fun s t => s == t ∧ Q t) (keyed.map (·.source)) seen ∧
      results.map Value.sense =
        grouping.collectors.map fun c => (c.over (seen.map Value.components)).sense := by
  have fed := h.reconcile fun key source hc =>
    Partitions.feeds_changes (List.forall_mem_map.1 offered) _ tours _ hc
  have sound := Partitions.sound_iff_fed.2 (h.imp fun _ _ => trivial)
  have members : membersOf .null keyed = keyed := List.filter_eq_self.2 fun k hk => by
    rw [null k hk]
    exact BEq.rfl
  have reconciled : ∀ w : Value, (Partitions.reconcile grouping.collectors tours
      (store.getD id ∅) (groupInputs keyed))[w]?.isSome = true ↔ membersOf w keyed ≠ [] :=
    Partitions.reconcile_isSome_iff sound keyed
  have some_group := (reconciled .null).2 (by rwa [members])
  obtain ⟨p, hp⟩ := Option.isSome_iff_exists.1 some_group
  obtain ⟨key, listed⟩ := Table.toList_eq_singleton hp fun w hw => by
    obtain ⟨k, hk⟩ := List.exists_mem_of_ne_nil _
      ((reconciled w).1 hw)
    obtain ⟨hmem, same⟩ := List.mem_filter.1 hk
    rwa [null k hmem] at same
  obtain ⟨feed, -, told, holds⟩ := fed _ p hp
  have perm := Partitions.perm_feed keyed .null hp holds
  rw [members] at perm
  obtain ⟨seen, same_seen, alike⟩ := Value.exists_perm_of_senses perm
  obtain ⟨⟨next, fused⟩, -⟩ := holds
  refine ⟨key, p.fused.results, ((groupInputs keyed)[key]?.map (·.facts.toList)).getD [], seen,
    ?_, ?_, ?_⟩
  · show (Partitions.reconcile _ _ _ _).toList.map _ = _
    rw [listed]
    rfl
  · have all : ∀ t ∈ seen, Q t := by
      intro t ht
      obtain ⟨entry, hentry, rfl⟩ := List.mem_map.1 (same_seen.mem_iff.1 ht)
      exact told entry hentry
    exact .flip (((List.forall₂_and_left _ _).2 ⟨all, alike.flip⟩).imp fun _ _ h => ⟨h.2, h.1⟩)
  · rw [fused.senses_results lawful]
    refine List.map_congr_left fun c hc => Measure.over_congr (lawful c hc) ?_
    rw [Feed.ledger_tuples]
    exact (((same_seen.symm.map Value.components).map c.mapping).map Value.sense)

end Grouping

/-! ## All facts of a type -/

/-- The values of the facts of a type, in the order of their handles. -/
def valuesOf (facts : List Fact) (type : FactType) : List Value :=
  (factsOf facts type).map (·.value)

/-- What a function makes of each value, in ascending order. -/
def sortedList (f : TupleFunction) (vs : List Value) : Value :=
  .tuple (Value.sort (vs.map fun v => f [v]))

theorem sortedList_beq {f : TupleFunction} {vs ws : List Value}
    (h : List.Forall₂ (fun v w => f [v] == f [w]) vs ws) : sortedList f vs == sortedList f ws := by
  refine Value.sense_inj.1 (Value.sense_tuple ?_)
  rw [Value.senses_sort, Value.senses_sort, List.map_map, List.map_map]
  congr 1
  exact map_eq_map_iff.2 (h.imp fun v w => Value.sense_inj.2)

/-- The grouping that lists what a function makes of each value of a variable. -/
def Grouping.listing (f : TupleFunction) (v source result : Variable) : Grouping :=
  ⟨[v], some source, none, [⟨⟨.toSortedList, f⟩, result⟩]⟩

/-- What a list of all facts of a type is made of. -/
theorem Layout.of_listing {type : FactType} {f : TupleFunction} {cs : List Condition}
    {vs : List Variable}
    (h : Layout (.groupBy (.forEach type) ⟨[], [⟨.toSortedList, f⟩]⟩) cs vs) :
    ∃ id v source result input c, cs = [.group id (.listing f v source result) input] ∧
      vs = [result] ∧ c.Does (.pattern v type) ∧
      SourceLayout [v] [c] [⟨.toSortedList, f⟩] (some source) input := by
  cases h with
  | groupBy id operand _ sources packs measures _ =>
    cases operand with
    | forEach _ pattern =>
      cases packs with
      | none =>
        obtain ⟨⟨collector, result⟩, rfl, rfl⟩ := List.map_eq_singleton_iff.1 measures
        cases sources with
        | some declared binds =>
          exact ⟨id, _, _, result, _, _, rfl, rfl, pattern, .some declared binds⟩
      | packed several => exact absurd several (Nat.not_lt_zero 1)

/-- A plan of one grouping shows its groups. -/
theorem Plan.derive_grouping {plan : Plan} {id : Nat} {grouping : Grouping}
    {input : List Condition} (conditions : plan.conditions = [.group id grouping input])
    {groups : GroupRows} {facts : List Fact} {limit : Nat} {ms : List Match}
    (h : plan.derive groups facts limit = .ok ms) :
    ∃ keyed, Condition.deriveAll groups facts limit [Row.empty] input >>= grouping.keyedAll =
        .ok keyed ∧
      plan.matchesOf (groups id grouping keyed) = .ok ms := by
  obtain ⟨rows, hrows, matched⟩ := bind_eq_ok.1 h
  rw [conditions] at hrows
  obtain ⟨out, hout, done⟩ := bind_eq_ok.1 hrows
  cases done
  obtain ⟨inner, hinner, hout⟩ := bind_eq_ok.1 hout
  obtain ⟨keyed, hkeyed, hout⟩ := bind_eq_ok.1 hout
  refine ⟨keyed, bind_eq_ok.2 ⟨inner, hinner, hkeyed⟩, ?_⟩
  have joined := Row.cross_unlimited hout
  rw [Row.cross_zero, List.flatMap_singleton, funext Row.empty_merge, List.map_id'] at joined
  cases joined
  exact matched

/-- A plan that shows the results of a grouping shows those of the one group there is. -/
theorem Plan.match_of_groupRow {plan : Plan} (grouping : Grouping)
    (visible : plan.visible = grouping.outputs.map (·.bound))
    (nodup : ((grouping.outputs.map (·.bound)).map (·.id)).Nodup) {results : List Value}
    (length : results.length = grouping.outputs.length) {key : Value} {facts : List Nat}
    {ms : List Match} (h : plan.matchesOf [grouping.groupRow key results facts] = .ok ms) :
    ∃ m, ms = [m] ∧ m.values = results := by
  rw [matchesOf_eq_ok_iff, List.forall₂_cons_left_iff] at h
  obtain ⟨m, rest, hm, hrest, rfl⟩ := h
  cases hrest
  obtain ⟨read, -⟩ := matchOf_eq_ok_iff.1 hm
  rw [visible] at read
  exact ⟨m, rfl, Except.ok.inj (read.symm.trans (grouping.read_groupRow length nodup key facts))⟩

/-- Values of a known form stand for what they are made of. -/
theorem exists_map_of_forall₂ {α β γ : Type} {R : α → γ → Prop} {g : γ → β} {as : List α}
    {bs : List β} (h : List.Forall₂ (fun a b => ∃ c, b = g c ∧ R a c) as bs) :
    ∃ cs, bs = cs.map g ∧ List.Forall₂ R as cs := by
  induction h with
  | nil => exact ⟨[], rfl, .nil⟩
  | cons first _ ih =>
    obtain ⟨c, rfl, related⟩ := first
    obtain ⟨cs, rfl, rest⟩ := ih
    exact ⟨c :: cs, rfl, .cons related rest⟩

theorem Value.tuple_singleton_beq {v w : Value} : (tuple [v] == tuple [w]) = true ↔ v == w := by
  show beqAll [v] [w] = true ↔ _
  rw [beqAll_eq, List.cons_beq_cons, Bool.and_eq_true]
  exact and_iff_left rfl

section
variable {type : FactType} {v source : Variable} {c : Condition} {input : List Condition}
  {f : TupleFunction} {result : Variable} (pattern : c.Does (.pattern v type))
  (layout : SourceLayout [v] [c] [⟨.toSortedList, f⟩] (some source) input)
  {groups : GroupRows} {facts : List Fact} {limit : Nat}
include pattern layout

/-- A list of all facts of a type is offered the tuple of each, all under the null key. -/
theorem Grouping.sources_of_pattern {keyed : List KeyedSource}
    (h : Condition.deriveAll groups facts limit [Row.empty] input >>=
      (listing f v source result).keyedAll = .ok keyed) :
    (∀ k ∈ keyed, k.key = .null) ∧
      keyed.map (·.source) = (valuesOf facts type).map fun x => .tuple [x] := by
  obtain ⟨inner, hinner, hkeyed⟩ := bind_eq_ok.1 h
  refine ⟨fun k hk => ?_, ?_⟩
  · obtain ⟨row, -, keys⟩ := exists_row_of_keyedAll hkeyed k hk
    exact key_of_keyed rfl keys
  have steps : List.Forall₂ Condition.Does input
      [.pattern v type, .bind source [v] wholeTuple] := by
    cases layout with
    | some _ binds => exact .cons pattern (.cons binds .nil)
  rcases steps with _ | ⟨⟨i, rfl⟩, _ | ⟨⟨j, rfl⟩, _ | _⟩⟩
  obtain ⟨rows, hrows, hinner⟩ := bind_eq_ok.1 hinner
  obtain ⟨bound, hbound, hinner⟩ := bind_eq_ok.1 hinner
  cases hinner
  have listed := Row.cross_unlimited hrows
  rw [Row.cross_zero, List.flatMap_singleton] at listed
  have reads : List.Forall₂ (fun row fact => row.read [v] = .ok [fact.value]) rows
      (factsOf facts type) := by
    cases listed
    refine List.forall₂_map_left_iff.2 (List.forall₂_same.2 fun fact _ => ?_)
    have own : (Row.empty.bindFact v fact).get v = .ok fact.value := by
      refine (Row.get_bind Row.empty v v fact.value).trans ?_
      rw [if_pos rfl]
    rw [Row.read, own]
    rfl
  obtain ⟨out, hout, tuples⟩ := Step.bind_in_step facts limit [v] wholeTuple
    (Q := fun row fact => row.get source = .ok (.tuple [fact.value])) reads
    fun row fact hread => ⟨_, hread, by rw [Row.get_bind, if_pos rfl]; rfl⟩
  cases hbound.symm.trans hout
  -- a row has one source, which is also what the keyed row has
  have offered := map_eq_map_iff.2
    ((keyedAll_eq_ok_iff.1 hkeyed).imp fun row k keys => source_of_keyed keys rfl)
  have same := offered.symm.trans (map_eq_map_iff.2 tuples)
  rw [valuesOf, List.map_map]
  exact map_eq_map_iff.2 ((map_eq_map_iff.1 same).imp fun k fact => Except.ok.inj)

/-- The one match of a list of all facts shows values like theirs.  Of these values holds what holds
of the facts and of what was fed before. -/
theorem Plan.exists_seen {plan : Plan} {id : Nat} {visits : Visits} {store : GroupStore}
    (conditions : plan.conditions = [.group id (.listing f v source result) input])
    (visible : plan.visible = [result]) {H : Value → Prop}
    (fed : Partitions.Fed (fun t => ∃ x, t = .tuple [x] ∧ H x)
      (Grouping.listing f v source result).collectors (store.getD id ∅))
    (here : ∀ x ∈ valuesOf facts type, H x) {ms : List Match}
    (h : plan.derive (.renewed visits store) facts limit = .ok ms)
    (occupied : valuesOf facts type ≠ []) :
    ∃ m seen, ms = [m] ∧ List.Forall₂ (fun x y => x == y ∧ H y) (valuesOf facts type) seen ∧
      m.values == [sortedList f seen] := by
  obtain ⟨keyed, hkeyed, matched⟩ := derive_grouping conditions h
  obtain ⟨null, sources⟩ := Grouping.sources_of_pattern pattern layout hkeyed
  have some_row : keyed ≠ [] := by
    rintro rfl
    exact occupied (List.map_eq_nil_iff.1 sources.symm)
  obtain ⟨key, results, handles, tuples, regrouped, related, senses⟩ :=
    Grouping.regroup_of_null (visits id) fed (fun c hc => List.mem_singleton.1 hc ▸ trivial) null
      some_row (by
      rw [sources]
      exact List.forall_mem_map.2 fun x hx => ⟨x, rfl, here x hx⟩)
  rw [sources, List.forall₂_map_left_iff] at related
  -- the tuples of one value that were fed are told by these values
  have values : List.Forall₂ (fun x t => ∃ y, t = .tuple [y] ∧ x == y ∧ H y)
      (valuesOf facts type) tuples := by
    refine related.imp ?_
    rintro x _ ⟨same, y, rfl, hy⟩
    exact ⟨y, rfl, Value.tuple_singleton_beq.1 same, hy⟩
  obtain ⟨seen, rfl, alike⟩ := exists_map_of_forall₂ values
  have length : results.length = 1 := by
    simpa [Grouping.collectors, Grouping.listing] using congrArg List.length senses
  rw [GroupRows.renewed, regrouped] at matched
  obtain ⟨m, rfl, shown⟩ := match_of_groupRow (Grouping.listing f v source result) visible
    (List.nodup_singleton _) length matched
  refine ⟨m, seen, rfl, alike, Value.senses_inj.1 ?_⟩
  rw [shown, senses, List.map_map]
  exact congrArg (fun vs => [(Value.tuple (Value.sort vs)).sense]) (List.map_map ..)

end

/-- The list of what a function makes of the facts of the sample. -/
def Sample.listing (f : TupleFunction) : Expression :=
  let source : Variable := numbered "source" 2 (.tuple 1)
  let result : Variable := numbered "result" 3 .value
  let input : List Condition := [first, .step 2 (.bind source [v] wholeTuple)]
  .ofSlot ⟨result, .link .empty 2 1 (.group 3 (.listing f v source result) input)⟩

theorem Sample.exists_listing (f : TupleFunction) : ∃ s es, Built s es ∧
    (.groupBy (.forEach left) ⟨[], [⟨.toSortedList, f⟩]⟩, listing f) ∈ es := by
  obtain ⟨s, groups⟩ : ∃ s, (facts.groupBy ⟨1⟩ ⟨[], [⟨.toSortedList, f⟩]⟩).Yields afterFacts
    (listing f) s := ⟨_, rfl⟩
  exact ⟨s, _, built_facts.groupBy (.head _) groups, .head _⟩

namespace Session

/-- When a plan with a condition of this plan was evaluated, in the history or now at its end, a
fact of the type had the value, in this spelling. -/
def Had (limit : Nat) (history : List Request) (plan : Plan) (type : FactType) (v : Value) :
    Prop :=
  ∃ earlier asked visits,
    earlier ++ [.evaluate asked visits] <+: history ++ [.evaluate plan visits] ∧
    (∃ d ∈ plan.conditions, d ∈ Condition.partsAll asked.conditions) ∧
    v ∈ valuesOf ((start limit).run earlier).facts type

section
variable {limit : Nat} {history : List Request} {plan : Plan} {type : FactType}
  {f : TupleFunction}

/-- A list of all facts of a type is offered only tuples of values that facts have had. -/
theorem had_of_offered {v source result : Variable} {c : Condition} {input : List Condition}
    (pattern : c.Does (.pattern v type))
    (layout : SourceLayout [v] [c] [⟨.toSortedList, f⟩] (some source) input) {id : Nat}
    (mem : .group id (.listing f v source result) input ∈ plan.conditions) {s : Value}
    (h : Offered limit history id (.listing f v source result) input s) :
    ∃ w, s = .tuple [w] ∧ Had limit history plan type w := by
  obtain ⟨earlier, asked, visits, moment, evaluated, keyed, hkeyed, hs⟩ := h
  rw [(Grouping.sources_of_pattern pattern layout hkeyed).2] at hs
  obtain ⟨w, hw, rfl⟩ := List.mem_map.1 hs
  exact ⟨w, rfl, earlier, asked, visits, moment.trans (List.prefix_append _ _),
    ⟨_, mem, evaluated⟩, hw⟩

/-- The match lists the facts of a type if it shows what a function makes of values like theirs,
each of which some fact had, in that spelling, when the plan was evaluated.  If the function does
not tell apart values that facts had then, these may be the values as they are. -/
structure Lists (limit : Nat) (history : List Request) (plan : Plan) (type : FactType)
    (f : TupleFunction) (m : Match) : Prop where
  seen : ∃ seen, List.Forall₂ (fun v w => v == w ∧ Had limit history plan type w)
    (valuesOf ((start limit).run history).facts type) seen ∧ m.values == [sortedList f seen]
  current : (∀ v w, Had limit history plan type v → Had limit history plan type w → v == w →
      f [v] == f [w]) →
    m.values == [sortedList f (valuesOf ((start limit).run history).facts type)]

theorem lists_of_seen {m : Match} {seen : List Value}
    (here : ∀ v ∈ valuesOf ((start limit).run history).facts type, Had limit history plan type v)
    (related : List.Forall₂ (fun v w => v == w ∧ Had limit history plan type w)
      (valuesOf ((start limit).run history).facts type) seen)
    (values : m.values == [sortedList f seen]) : Lists limit history plan type f m where
  seen := ⟨seen, related, values⟩
  current respects := by
    have both := (List.forall₂_and_left _ _).2 ⟨here, related⟩
    have same := sortedList_beq (both.imp fun v w h => respects v w h.1 h.2.2 h.2.1)
    rw [← Value.senses_inj] at values ⊢
    exact values.trans (congrArg (fun t => [t]) (Value.sense_inj.2 same).symm)

/-- **A list of all facts shows each, perhaps as a look-alike.**  A plan lists, in ascending order,
what a function makes of each fact of a type.  Whatever the session was asked before, and whatever
tours it goes on, if it answers and there are facts, then with one match that lists them. -/
theorem sorted_list_of_lookAlikes {s : Supply} {es : List (Term × Expression)}
    (built : LooselyBuilt s es) {e : Expression}
    (operand : (.groupBy (.forEach type) ⟨[], [⟨.toSortedList, f⟩]⟩, e) ∈ es) (w : Weigher)
    (identified : Condition.Identified
      (history.flatMap Request.conditions ++ (e.toPlan w).conditions)) {visits : Visits}
    {ms : List Match}
    (answer : (((start limit).run history).evaluate (e.toPlan w) visits).1 = .ok ms)
    (occupied : valuesOf ((start limit).run history).facts type ≠ []) :
    ∃ m, ms = [m] ∧ Lists limit history (e.toPlan w) type f m := by
  obtain ⟨r, rfl, shapes⟩ := built.exists_registry
  obtain ⟨id, v, source, result, input, c, conditions, visible, pattern, layout⟩ :=
    (shapes _ operand).layout.of_listing
  rw [evaluate_eq_renewed _ visits identified.right] at answer
  change (e.toPlan w).conditions = _ at conditions
  have mem : .group id (.listing f v source result) input ∈ (e.toPlan w).conditions := by
    rw [conditions]
    exact List.mem_singleton_self _
  -- the grouping is known beside whatever was evaluated before
  have group : .group id (.listing f v source result) input ∈
      Condition.partsAll (history.flatMap Request.conditions ++ (e.toPlan w).conditions) :=
    Condition.partsAll_subset_right _ _
      (Condition.mem_partsAll.2 ⟨_, mem, Condition.self_mem_parts _⟩)
  have fed := (fed_run identified group limit (Request.mem_partsAll_of_asked _)).imp
    fun _ => had_of_offered pattern layout mem
  have here : ∀ x ∈ valuesOf ((start limit).run history).facts type,
      Had limit history (e.toPlan w) type x := fun x hx =>
    ⟨history, e.toPlan w, visits, List.prefix_rfl,
      ⟨_, mem, Condition.mem_partsAll.2 ⟨_, mem, Condition.self_mem_parts _⟩⟩, hx⟩
  obtain ⟨m, seen, rfl, related, values⟩ := Plan.exists_seen pattern layout conditions visible fed
    here answer occupied
  exact ⟨m, rfl, lists_of_seen here related values⟩

end

/-- A list of texts after a fact was respelled and another came that looks like it. -/
theorem sorted_list_of_lookAlikes_texts :
    let type : FactType := Sample.left
    let text : TupleFunction := fun xs => .string (valueAt 0 xs).text
    let e : Expression := Sample.listing text
    let history : List Request := [.insert type (.decimal ⟨10, 1⟩), .insert type (.int 7),
      .evaluate (e.toPlan .unit) .descending, .update 1 (.decimal ⟨100, 2⟩),
      .insert type (.decimal ⟨1, 0⟩)]
    let session := (start 0).run history
    (∃ s es, LooselyBuilt s es ∧
      (.groupBy (.forEach type) ⟨[], [⟨.toSortedList, text⟩]⟩, e) ∈ es) ∧
      Condition.Identified (history.flatMap Request.conditions ++ (e.toPlan .unit).conditions) ∧
      valuesOf session.facts type ≠ [] ∧
      ∃ m, (session.evaluate (e.toPlan .unit)).1 = .ok [m] ∧
        Lists 0 history (e.toPlan .unit) type text m := by
  intro type text e history session
  obtain ⟨s, es, built, operand⟩ := Sample.exists_listing text
  have known : (e.toPlan .unit).IsOf es := ⟨_, operand, .unit, rfl⟩
  have asked : ∀ request ∈ history, request.Within es := by
    simp [history, Request.Within, known]
  have identified := built.identified asked known
  have occupied : valuesOf session.facts type ≠ [] := by
    show [Value.decimal ⟨100, 2⟩, .int 7, .decimal ⟨1, 0⟩] ≠ []
    exact List.cons_ne_nil _ _
  obtain ⟨ms, answer⟩ := built.exists_matches asked known .ascending
  obtain ⟨m, rfl, lists⟩ := sorted_list_of_lookAlikes (.of_built built) operand .unit
    identified answer occupied
  exact ⟨⟨s, es, .of_built built, operand⟩, identified, occupied, m, answer, lists⟩

/-- A fact is written `1.0`, listed, and then written `1.00`: the list still shows the old text. -/
theorem respelled_fact_is_missed :
    let type : FactType := Sample.left
    let text : TupleFunction := fun xs => .string (valueAt 0 xs).text
    let e : Expression := Sample.listing text
    let plan : Plan := e.toPlan .unit
    let history : List Request :=
      [.insert type (.decimal ⟨10, 1⟩), .evaluate plan, .update 1 (.decimal ⟨100, 2⟩)]
    let session := (start 0).run history
    (∃ s es, LooselyBuilt s es ∧
      (.groupBy (.forEach type) ⟨[], [⟨.toSortedList, text⟩]⟩, e) ∈ es) ∧
      Condition.Identified (history.flatMap Request.conditions ++ plan.conditions) ∧
      session.facts = [⟨1, type, .decimal ⟨100, 2⟩⟩] ∧
      ∃ m, (session.evaluate plan).1 = .ok [m] ∧ m.values == [.tuple [.string "1.0"]] ∧
        ¬ m.values == [sortedList text (valuesOf session.facts type)] := by
  intro type text e plan history session
  have listed : (session.evaluate plan).1.toOption.map (·.map (·.values)) ==
      some [[.tuple [.string "1.0"]]] := by decide +kernel +revert
  have other : ([Value.tuple [.string "1.0"]] ==
      [sortedList text (valuesOf session.facts type)]) = false := by decide +kernel +revert
  obtain ⟨s, es, built, operand⟩ := Sample.exists_listing text
  have known : plan.IsOf es := ⟨_, operand, .unit, rfl⟩
  have asked : ∀ request ∈ history, request.Within es := by
    simp [history, Request.Within, known]
  refine ⟨⟨s, es, .of_built built, operand⟩, built.identified asked known, rfl, ?_⟩
  obtain ⟨ms, answer⟩ := built.exists_matches asked known .ascending
  change (session.evaluate plan).1 = _ at answer
  rw [answer] at listed
  have shown : ms.map (·.values) == [[.tuple [.string "1.0"]]] := listed
  obtain ⟨m, rfl⟩ := List.length_eq_one_iff.1
    ((List.length_map _).symm.trans (List.length_eq_of_beq shown))
  have values : m.values == [.tuple [.string "1.0"]] := by simpa using shown
  refine ⟨m, answer, values, fun same => Bool.false_ne_true (other.symm.trans ?_)⟩
  rw [← Value.senses_inj] at values same ⊢
  exact values.symm.trans same

end Session

end MatchAlgebra
