import MatchAlgebra.Proofs.Alteration
import MatchAlgebra.Proofs.Stages

/-!
# Altered plans in a session

A session that is asked to evaluate plans and one that is asked to evaluate the plans with altered
functions give the same answers.  Side by side they keep partitions that are alike: the same tuples
have been fed to them, and the accumulations stand in the same state, of collectors that agree on
what can be fed to them.

    plan.AltersTo plan'  →
      Twin alike (· = ·) (plan.evaluate visits facts limit) (plan'.evaluate visits facts limit)

What can be fed under an id is read off the grouping with the id (`Condition.fedIn`), so that
conditions must be told apart by their ids.
-/

namespace MatchAlgebra

/-! ## Accumulations -/

/-- Accumulations in one state, of collectors that agree on what is fed. -/
inductive Accumulation.Alike (fed : List Value → Prop) : Accumulation → Accumulation → Prop
  | mk {measure : Measure} {mapping mapping' : TupleFunction}
      (agree : ∀ xs, fed xs → mapping xs = mapping' xs) (state : measure.State)
      (pending : Std.TreeMap Nat Value) (nextToken : Nat) :
      Alike fed ⟨⟨measure, mapping⟩, state, pending, nextToken⟩
        ⟨⟨measure, mapping'⟩, state, pending, nextToken⟩

/-- The accumulations are alike one by one. -/
abbrev Fused.Alike (fed : List Value → Prop) (fused fused' : Fused) : Prop :=
  List.Forall₂ (Accumulation.Alike fed) fused fused'

section
variable {fed : List Value → Prop}

namespace Accumulation.Alike

variable {a a' : Accumulation}

theorem start {c c' : Collector} (h : c.AltersTo fed c') :
    Alike fed (Accumulation.start c) (Accumulation.start c') := by
  obtain ⟨measure, mapping⟩ := c
  obtain ⟨measure', mapping'⟩ := c'
  obtain ⟨rfl, agree⟩ := h
  exact .mk agree _ _ _

theorem add (h : Alike fed a a') {tuple : List Value} (hfed : fed tuple) :
    Alike fed (a.add tuple).1 (a'.add tuple).1 ∧ (a.add tuple).2 = (a'.add tuple).2 := by
  cases h with
  | mk agree state pending nextToken =>
    refine ⟨?_, rfl⟩
    unfold Accumulation.add
    dsimp only
    rw [agree tuple hfed]
    exact .mk agree _ _ _

theorem undo (h : Alike fed a a') (token : Nat) :
    Alike fed (a.undo token).1 (a'.undo token).1 := by
  cases h with
  | mk agree state pending nextToken =>
    unfold Accumulation.undo
    dsimp only
    split
    · exact .mk agree _ _ _
    · exact .mk agree _ _ _

theorem result (h : Alike fed a a') : a.result = a'.result := by
  cases h with
  | mk agree state pending nextToken => rfl

end Accumulation.Alike

namespace Fused.Alike

variable {fused fused' : Fused}

theorem start {cs cs' : List Collector} (h : List.Forall₂ (Collector.AltersTo fed) cs cs') :
    Alike fed (Fused.start cs) (Fused.start cs') :=
  List.rel_map (fun _ _ hc => .start hc) h

theorem insert (h : Alike fed fused fused') {tuple : List Value} (hfed : fed tuple) :
    Alike fed (fused.insert tuple).1 (fused'.insert tuple).1 ∧
      (fused.insert tuple).2 = (fused'.insert tuple).2 :=
  ⟨List.rel_map (fun _ _ ha => (ha.add hfed).1) h,
    map_eq_map_iff.2 (h.imp fun _ _ ha => (ha.add hfed).2)⟩

theorem retract (h : Alike fed fused fused') (undo : Undo) :
    Alike fed (fused.retract undo) (fused'.retract undo) := by
  induction h generalizing undo with
  | nil => exact .nil
  | cons ha hrest ih =>
    cases undo with
    | nil => exact .cons ha hrest
    | cons token tokens => exact .cons (ha.undo token) (ih tokens)

theorem results (h : Alike fed fused fused') : fused.results = fused'.results :=
  map_eq_map_iff.2 (h.imp fun _ _ => Accumulation.Alike.result)

end Fused.Alike

/-! ## Partitions -/

/-- The same tuples have been fed to accumulations that are alike. -/
structure Partition.Alike (fed : List Value → Prop) (p p' : Partition) : Prop where
  fused : Fused.Alike fed p.fused p'.fused
  contributions : p.contributions = p'.contributions

namespace Partition.Alike

variable {p p' : Partition}

theorem start {cs cs' : List Collector} (h : List.Forall₂ (Collector.AltersTo fed) cs cs') :
    Alike fed (Partition.start cs) (Partition.start cs') := ⟨.start h, rfl⟩

theorem insert (h : Alike fed p p') {source : Value} (hfed : fed source.components) :
    Alike fed (p.insert source) (p'.insert source) := by
  obtain ⟨fused, undo⟩ := h.fused.insert hfed
  refine ⟨fused, ?_⟩
  unfold Partition.insert
  dsimp only
  rw [undo, h.contributions]

theorem retract (h : Alike fed p p') (source : Value) :
    Alike fed (p.retract source) (p'.retract source) := by
  unfold Partition.retract
  rw [h.contributions]
  split
  · next undo _ => exact ⟨h.fused.retract undo, rfl⟩
  · next undo rest _ _ => exact ⟨h.fused.retract undo, rfl⟩
  · exact h

theorem isEmpty_eq (h : Alike fed p p') : p.isEmpty = p'.isEmpty := by
  rw [Partition.isEmpty, Partition.isEmpty, h.contributions]

theorem copies_eq (h : Alike fed p p') (source : Value) : p.copies source = p'.copies source := by
  rw [Partition.copies, Partition.copies, h.contributions]

end Partition.Alike

namespace Partitions

variable {ps ps' : Partitions} {collectors collectors' : List Collector}

/-- The same groups, and partitions that are alike. -/
abbrev Alike (fed : List Value → Prop) (ps ps' : Partitions) : Prop :=
  Table.Alike (Partition.Alike fed) ps ps'

theorem Alike.copies_eq (h : Alike fed ps ps') (key source : Value) :
    ps.copies key source = ps'.copies key source := by
  have value := h.values key
  rw [copies, copies]
  generalize ps[key]? = p at value
  generalize ps'[key]? = p' at value
  cases value with
  | none => rfl
  | some hp => exact congrArg (Option.getD · 0) (congrArg some (hp.copies_eq source))

theorem Alike.changes_eq (h : Alike fed ps ps') (tours : Tours) (target : GroupInputs) :
    ps.changes tours target = ps'.changes tours target := by
  have retractions : ps.retractions tours.back target = ps'.retractions tours.back target := by
    refine flatMap_eq_of_forall₂ (h.toList.imp ?_)
    rintro ⟨key, p⟩ ⟨key', p'⟩ ⟨rfl, hp⟩
    dsimp only
    rw [hp.contributions]
    simp only [hp.copies_eq]
  have insertions : ps.insertions tours.forth target = ps'.insertions tours.forth target := by
    rw [Partitions.insertions, Partitions.insertions]
    simp only [h.copies_eq]
  rw [changes, changes, retractions, insertions]

theorem Alike.apply (h : Alike fed ps ps')
    (hc : List.Forall₂ (Collector.AltersTo fed) collectors collectors') {c : Change}
    (feeds : c.Feeds fun source => fed source.components) :
    Alike fed (apply collectors ps c) (Partitions.apply collectors' ps' c) := by
  cases c with
  | retract key source =>
    have value := h.values key
    unfold Partitions.apply
    dsimp only
    generalize ps[key]? = p at value
    generalize ps'[key]? = p' at value
    cases value with
    | none => exact h
    | some hp =>
      dsimp only
      rw [(hp.retract source).isEmpty_eq]
      split
      · exact h.erase key
      · exact h.change key fun _ _ _ => hp.retract source
  | insert key source =>
    unfold Partitions.apply
    dsimp only
    refine h.change key fun p p' hp => ?_
    cases hp with
    | none => exact (Partition.Alike.start hc).insert feeds
    | some hp => exact hp.insert feeds

theorem Alike.reconcile (h : Alike fed ps ps')
    (hc : List.Forall₂ (Collector.AltersTo fed) collectors collectors') {tours : Tours}
    {target : GroupInputs}
    (feeds : ∀ c ∈ ps.changes tours target, c.Feeds fun source => fed source.components) :
    Alike fed (reconcile collectors tours ps target)
      (Partitions.reconcile collectors' tours ps' target) := by
  rw [Partitions.reconcile, Partitions.reconcile, ← h.changes_eq]
  generalize ps.changes tours target = cs at feeds
  induction cs generalizing ps ps' with
  | nil => exact h
  | cons c cs ih =>
    obtain ⟨hc', hcs⟩ := List.forall_mem_cons.1 feeds
    exact ih (h.apply hc hc') hcs

end Partitions

end

/-! ## Groupings -/

/-- What can be fed under an id: what may be fed to the grouping with the id. -/
def Condition.fedIn (pool : List Condition) (id : Nat) (xs : List Value) : Prop :=
  ∀ grouping input, .group id grouping input ∈ partsAll pool → grouping.MayFeed input xs

/-- The partitions kept under each id are alike. -/
def GroupStore.Alike (pool : List Condition) (store store' : GroupStore) : Prop :=
  ∀ id, Partitions.Alike (Condition.fedIn pool id) (store.getD id ∅) (store'.getD id ∅)

theorem GroupStore.alike_empty (pool : List Condition) : Alike pool ∅ ∅ := by
  intro id
  rw [Std.TreeMap.getD_emptyc]
  exact .empty

namespace Grouping

variable {grouping grouping' : Grouping} {input : List Condition}

namespace AltersTo

theorem collectors (h : grouping.AltersTo input grouping') :
    List.Forall₂ (Collector.AltersTo (grouping.MayFeed input)) grouping.collectors
      grouping'.collectors :=
  List.rel_map (fun _ _ ho => ho.collector) h.outputs

theorem keyed_eq (h : grouping.AltersTo input grouping') (row : Row) :
    grouping.keyed row = grouping'.keyed row := by
  obtain ⟨inputs, source, key, outputs⟩ := grouping
  obtain ⟨inputs', source', key', outputs'⟩ := grouping'
  obtain ⟨rfl, rfl, keys, -⟩ := h
  cases keys with
  | none => rfl
  | some hk =>
    rw [keyed, keyed]
    dsimp only
    rw [row.map_read_eq hk.function]

theorem keyedAll_eq (h : grouping.AltersTo input grouping') (rows : List Row) :
    grouping.keyedAll rows = grouping'.keyedAll rows :=
  grouping'.inTurn_keyedAll.ext grouping.inTurn_keyedAll fun row _ => h.keyed_eq row

theorem rowOf_eq (h : grouping.AltersTo input grouping') {fed : List Value → Prop}
    {p p' : Partition} (hp : p.Alike fed p') (groups : GroupInputs) (key : Value) :
    grouping.rowOf groups key p = grouping'.rowOf groups key p' := by
  have keys : grouping.key.map (fun k => (k.bound.id, key)) =
      grouping'.key.map fun k => (k.bound.id, key) := by
    have bounds := congrArg (Option.map fun v : Variable => (v.id, key)) h.key_bound_eq
    rwa [Option.map_map, Option.map_map] at bounds
  have bounds : grouping.outputs.map (·.bound.id) = grouping'.outputs.map (·.bound.id) :=
    map_eq_map_iff.2 (h.outputs.imp fun _ _ ho => congrArg (·.id) ho.bound)
  have values : (grouping.groupRow key p.fused.results []).values =
      (grouping'.groupRow key p'.fused.results []).values := by
    rw [values_groupRow, values_groupRow, bounds, keys, hp.fused.results]
  exact congrArg (Row.mk · _) values

/-- Twin groupings give the same rows and keep partitions that are alike. -/
theorem regroup_twin (h : grouping.AltersTo input grouping') {pool : List Condition}
    (identified : Condition.Identified pool) {id : Nat}
    (mem : .group id grouping input ∈ Condition.partsAll pool) (tours : Tours)
    {rows : List KeyedSource}
    (feeds : ∀ row ∈ rows, grouping.MayFeed input row.source.components) :
    Twin (GroupStore.Alike pool) (· = ·)
      (liftM (grouping.regroup tours id rows) : Evaluation (List Row))
      (liftM (grouping'.regroup tours id rows)) := by
  -- only this grouping has the id
  have fed : ∀ xs, grouping.MayFeed input xs ↔ Condition.fedIn pool id xs := by
    intro xs
    refine ⟨fun hxs other input' mem' => ?_, fun hxs => hxs grouping input mem⟩
    cases identified _ mem' _ mem rfl
    exact hxs
  refine .lift fun store store' hstore => ?_
  have collectors : List.Forall₂ (Collector.AltersTo (Condition.fedIn pool id))
      grouping.collectors grouping'.collectors :=
    h.collectors.imp fun _ _ hc => ⟨hc.measure, fun xs hxs => hc.mapping xs ((fed xs).2 hxs)⟩
  have alike := (hstore id).reconcile collectors
    (Partitions.feeds_changes (Q := fun source => Condition.fedIn pool id source.components)
      (fun row hrow => (fed _).1 (feeds row hrow)) (store.getD id ∅) tours)
  refine ⟨?_, fun other => ?_⟩
  · refine map_eq_map_iff.2 (alike.toList.imp ?_)
    rintro ⟨key, p⟩ ⟨key', p'⟩ ⟨rfl, hp⟩
    exact h.rowOf_eq hp _ key
  · show Partitions.Alike _ ((store.insert id _).getD other ∅) ((store'.insert id _).getD other ∅)
    rw [Std.TreeMap.getD_insert, Std.TreeMap.getD_insert]
    split
    · next heq =>
      cases Nat.compare_eq_eq.1 heq
      exact alike
    · exact hstore other

end AltersTo

end Grouping

/-! ## Evaluation -/

/-- What the input of a grouping gives may be fed to it. -/
theorem Grouping.mayFeed_of_evaluateAll {grouping : Grouping} {input : List Condition}
    {visits : Visits} {facts : List Fact} {limit : Nat} {rows out : List Row}
    (gives : Gives (Condition.evaluateAll visits facts limit rows input) out)
    {keyed : List KeyedSource} (hkeyed : grouping.keyedAll out = .ok keyed) :
    ∀ row ∈ keyed, grouping.MayFeed input row.source.components := by
  rintro k hk source hsource before id rfl
  obtain ⟨store, store', evaluates⟩ := gives
  obtain ⟨middle, applied⟩ := Condition.apply_of_evaluateAll evaluates
  have tuples : ∀ row ∈ out, ∃ xs, row.get source = .ok (.tuple xs) ∧
      xs.length = grouping.inputs.length := by
    refine Row.forall_change (Q := fun _ => True) (fun _ _ => trivial) ?_ applied
    intro row changed _ hchanged
    obtain ⟨xs, hxs, hchanged⟩ := bind_eq_ok.1 hchanged
    cases hchanged
    refine ⟨xs, ?_, (Row.read_eq_ok_iff.1 hxs).length_eq.symm⟩
    rw [Row.get_bind, if_pos rfl]
    rfl
  obtain ⟨row, hrow, hkeyed⟩ := Grouping.exists_row_of_keyedAll hkeyed k hk
  obtain ⟨xs, hget, length⟩ := tuples row hrow
  have source_eq := Except.ok.inj (hget.symm.trans (Grouping.source_of_keyed hkeyed hsource))
  rw [← source_eq]
  exact length

namespace Condition

variable {pool : List Condition}

mutual

theorem evaluate_twin (identified : Identified pool) (visits : Visits) (facts : List Fact)
    (limit : Nat) (rows : List Row) : ∀ (c : Condition) {c' : Condition}, c.AltersTo c' →
      (∀ d ∈ c.parts, d ∈ partsAll pool) →
      Twin (GroupStore.Alike pool) (· = ·) (c.evaluate visits facts limit rows)
        (c'.evaluate visits facts limit rows)
  | .step id s, _, .step _ h, _ => .ofExcept (.of_eq (h.apply_eq facts limit rows))
  | .group id grouping input, _, .group _ h inside, known => by
    obtain ⟨mem, hinput⟩ := forall_parts_group.1 known
    refine (evaluateAll_twin identified visits facts limit [Row.empty] input inside hinput).bind ?_
    rintro inner _ rfl gives
    refine Twin.bind (R := fun keyed keyed' => keyed = keyed' ∧ grouping.keyedAll inner = .ok keyed)
      ?_ ?_
    · rw [← h.keyedAll_eq inner]
      cases hkeyed : grouping.keyedAll inner with
      | error e => exact .ofExcept (.error e)
      | ok keyed => exact .ofExcept (.ok ⟨rfl, rfl⟩)
    rintro keyed _ ⟨rfl, hkeyed⟩ -
    refine (h.regroup_twin identified mem (visits id)
      (Grouping.mayFeed_of_evaluateAll gives hkeyed)).bind ?_
    rintro grouped _ rfl -
    exact .ofExcept (.of_eq rfl)

theorem evaluateAll_twin (identified : Identified pool) (visits : Visits) (facts : List Fact)
    (limit : Nat) (rows : List Row) : ∀ (cs : List Condition) {cs' : List Condition},
      List.Forall₂ AltersTo cs cs' →
      (∀ d ∈ partsAll cs, d ∈ partsAll pool) →
      Twin (GroupStore.Alike pool) (· = ·) (evaluateAll visits facts limit rows cs)
        (evaluateAll visits facts limit rows cs')
  | [], _, .nil, _ => .pure rfl
  | c :: cs, _, .cons h rest, known => by
    obtain ⟨hc, hcs⟩ := forall_partsAll_cons.1 known
    refine (evaluate_twin identified visits facts limit rows c h hc).bind ?_
    rintro rows _ rfl -
    exact evaluateAll_twin identified visits facts limit rows cs rest hcs

end

end Condition

theorem Weigher.AltersTo.weigh_eq {n : Nat} {w w' : Weigher} (h : w.AltersTo n w')
    {xs : List Value} (length : xs.length = n) : w.weigh xs = w'.weigh xs := by
  cases h with
  | unit => rfl
  | long agree => exact congrArg Weight.long (agree xs length)
  | decimal agree => exact congrArg Weight.decimal (agree xs length)

namespace Plan

variable {plan plan' : Plan}

theorem AltersTo.matchesOf_eq (h : plan.AltersTo plan') (rows : List Row) :
    plan.matchesOf rows = plan'.matchesOf rows := by
  have same : ∀ row, plan.matchOf row = plan'.matchOf row := by
    intro row
    rw [matchOf, matchOf, ← h.visible]
    exact row.bind_read_eq fun xs length => by rw [h.weigher.weigh_eq length]
  exact plan'.inTurn_matchesOf.ext plan.inTurn_matchesOf fun row _ => same row

/-- **Altered plans are twins.**  On stores that are alike they give the same matches or the same
error. -/
theorem AltersTo.evaluate_twin (h : plan.AltersTo plan') {pool : List Condition}
    (identified : Condition.Identified pool)
    (known : ∀ d ∈ Condition.partsAll plan.conditions, d ∈ Condition.partsAll pool)
    (visits : Visits) (facts : List Fact) (limit : Nat) :
    Twin (GroupStore.Alike pool) (· = ·) (plan.evaluate visits facts limit)
      (plan'.evaluate visits facts limit) := by
  refine (Condition.evaluateAll_twin identified visits facts limit _ _ h.conditions known).bind ?_
  rintro rows _ rfl -
  exact .ofExcept (.of_eq (h.matchesOf_eq rows))

end Plan

/-! ## Sessions -/

namespace Session

/-- The same facts, and partitions that are alike. -/
structure Alike (pool : List Condition) (session session' : Session) : Prop where
  facts : session.facts = session'.facts
  nextHandle : session.nextHandle = session'.nextHandle
  maxBindings : session.maxBindings = session'.maxBindings
  groups : GroupStore.Alike pool session.groups session'.groups

variable {pool : List Condition} {session session' : Session}

theorem alike_start (pool : List Condition) (limit : Nat) :
    Alike pool (start limit) (start limit) := ⟨rfl, rfl, rfl, GroupStore.alike_empty pool⟩

/-- An altered plan gives the same answer and leaves sessions that are alike. -/
theorem Alike.evaluate (h : session.Alike pool session') (identified : Condition.Identified pool)
    {plan plan' : Plan} (alters : plan.AltersTo plan')
    (known : ∀ d ∈ Condition.partsAll plan.conditions, d ∈ Condition.partsAll pool)
    (visits : Visits) :
    (session.evaluate plan visits).1 = (session'.evaluate plan' visits).1 ∧
      Alike pool (session.evaluate plan visits).2 (session'.evaluate plan' visits).2 := by
  obtain ⟨outcome, groups⟩ := alters.evaluate_twin identified known visits session.facts
    session.maxBindings _ _ h.groups
  unfold Session.evaluate
  rw [← h.facts, ← h.maxBindings]
  exact ⟨outcome.eq, rfl, h.nextHandle, rfl, groups⟩

theorem Alike.perform (h : session.Alike pool session') (identified : Condition.Identified pool)
    {request request' : Request} (alters : request.AltersTo request')
    (known : ∀ d ∈ Condition.partsAll request.conditions, d ∈ Condition.partsAll pool) :
    Alike pool (session.perform request) (session'.perform request') := by
  cases alters with
  | insert type value =>
    refine ⟨?_, congrArg (· + 1) h.nextHandle, h.maxBindings, h.groups⟩
    exact congrArg₂ (fun facts handle => facts ++ [⟨handle, type, value⟩]) h.facts h.nextHandle
  | update handle value =>
    rw [perform_update, perform_update]
    exact ⟨congrArg (List.map _) h.facts, h.nextHandle, h.maxBindings, h.groups⟩
  | retract handle =>
    rw [perform_retract, perform_retract]
    exact ⟨congrArg (List.filter _) h.facts, h.nextHandle, h.maxBindings, h.groups⟩
  | evaluate alters visits => exact (h.evaluate identified alters known visits).2

theorem Alike.run (h : session.Alike pool session') (identified : Condition.Identified pool)
    {history history' : List Request} (alters : List.Forall₂ Request.AltersTo history history')
    (known : ∀ request ∈ history, ∀ d ∈ Condition.partsAll request.conditions,
      d ∈ Condition.partsAll pool) :
    Alike pool (session.run history) (session'.run history') := by
  induction alters generalizing session session' with
  | nil => exact h
  | cons hr _ ih =>
    rw [List.forall_mem_cons] at known
    exact ih (h.perform identified hr known.1) known.2

/-- **Altered functions do not show.**  After any history the altered plan gives the same answer on
the same tours, also if plans of the history were altered. -/
theorem evaluate_altered (limit : Nat) {history history' : List Request}
    (earlier : List.Forall₂ Request.AltersTo history history') {plan plan' : Plan}
    (alters : plan.AltersTo plan')
    (identified : Condition.Identified (history.flatMap Request.conditions ++ plan.conditions))
    (visits : Visits) : (((start limit).run history').evaluate plan' visits).1 =
      (((start limit).run history).evaluate plan visits).1 := by
  have after := (alike_start _ limit).run identified earlier
    (Request.mem_partsAll_of_asked plan.conditions)
  exact (after.evaluate identified alters (Condition.partsAll_subset_right _ _) visits).1.symm

end Session

end MatchAlgebra
