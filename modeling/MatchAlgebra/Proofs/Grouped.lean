import MatchAlgebra.Proofs.Compilation
import MatchAlgebra.Proofs.Existence
import MatchAlgebra.Proofs.Handles
import MatchAlgebra.Proofs.Typing

/-!
# What a grouping makes of matches

The matches of a grouped expression can be told from those of the expression alone.  There is one
for each different packed key, in ascending order: the keys, the values of the collectors over the
members, and the facts of all members.

    base.map traced   matches of the expression, each with its facts
    request.regroup   one row for each key of theirs
    ms.map traced     matches of the grouped expression

    ms.map traced = request.regroup (base.map traced)                 (Plan.Groups.derive)

Under a limit the grouped expression fails only if there are too many groups or if the expression
itself fails.
-/

namespace MatchAlgebra

/-! ## Results under a limit -/

/-- What a join makes under a limit it makes without one. -/
theorem Row.cross_unlimited {α : Type} {limit : Nat} {rows out : List Row} {items : List α}
    {join : Row → α → Row} (h : cross limit rows items join = .ok out) :
    cross 0 rows items join = .ok out := by
  rw [cross] at h
  split at h
  · cases h
  · exact h

theorem Step.apply_unlimited {facts : List Fact} {limit : Nat} {rows out : List Row} {s : Step}
    (h : s.apply facts limit rows = .ok out) : s.apply facts 0 rows = .ok out := by
  cases s with
  | pattern bound type => exact Row.cross_unlimited h
  | filter inputs predicate => exact h
  | join test => exact h
  | bind bound inputs function => exact h
  | existence test => exact h

namespace Condition

variable {facts : List Fact} {limit : Nat}

mutual

theorem derive_unlimited {rows out : List Row} : ∀ c : Condition,
    c.derive .afresh facts limit rows = .ok out → c.derive .afresh facts 0 rows = .ok out
  | .step id s, h => Step.apply_unlimited h
  | .group id grouping input, h => by
    obtain ⟨inner, hinner, h⟩ := bind_eq_ok.1 h
    obtain ⟨keyed, hkeyed, h⟩ := bind_eq_ok.1 h
    rw [derive, deriveAll_unlimited input hinner]
    show (do let keyed ← grouping.keyedAll inner; _) = _
    rw [hkeyed]
    exact Row.cross_unlimited h

/-- What conditions make under a limit they make without one. -/
theorem deriveAll_unlimited {rows out : List Row} : ∀ cs : List Condition,
    deriveAll .afresh facts limit rows cs = .ok out → deriveAll .afresh facts 0 rows cs = .ok out
  | [], h => h
  | c :: cs, h => by
    obtain ⟨next, hnext, h⟩ := bind_eq_ok.1 h
    rw [deriveAll, derive_unlimited c hnext]
    exact deriveAll_unlimited cs h

end

end Condition

/-! ## Facts of rows -/

/-- Related lists whose images agree are related with that. -/
theorem forall₂_and_of_map_eq {α β γ : Type} {R : α → β → Prop} {f : α → γ} {g : β → γ}
    {as : List α} {bs : List β} (h : List.Forall₂ R as bs) (same : as.map f = bs.map g) :
    List.Forall₂ (fun a b => R a b ∧ f a = g b) as bs := by
  induction h with
  | nil => exact .nil
  | cons related _ ih =>
    obtain ⟨here, rest⟩ := List.cons.inj same
    exact .cons ⟨related, here⟩ (ih rest)

theorem Row.facts_change {f : Row → Except SessionError Row} {rows out : List Row}
    (hf : ∀ row changed, f row = .ok changed → changed.facts = row.facts)
    (h : change f rows = .ok out) : out.map (·.facts) = rows.map (·.facts) := by
  have in_turn := (inTurn_change f).eq_ok_iff.1 h
  exact (map_eq_map_iff.2 (in_turn.imp fun row changed hc => (hf row changed hc).symm)).symm

/-- The step binds a variable to a function of others. -/
def Step.IsBind (s : Step) : Prop := ∃ bound inputs function, s = .bind bound inputs function

/-- Binding variables leaves the facts of rows as they are. -/
theorem Condition.facts_deriveAll {facts : List Fact} {limit : Nat} {cs : List Condition}
    {steps : List Step} (does : List.Forall₂ Does cs steps) (binds : ∀ s ∈ steps, s.IsBind)
    {rows out : List Row} (h : deriveAll .afresh facts limit rows cs = .ok out) :
    out.map (·.facts) = rows.map (·.facts) := by
  induction does generalizing rows with
  | nil =>
    cases h
    rfl
  | cons first _ ih =>
    obtain ⟨id, rfl⟩ := first
    obtain ⟨here, rest⟩ := List.forall_mem_cons.1 binds
    obtain ⟨bound, inputs, function, rfl⟩ := here
    obtain ⟨next, hnext, hout⟩ := bind_eq_ok.1 h
    refine (ih rest hout).trans (Row.facts_change (fun row changed hchanged => ?_) hnext)
    obtain ⟨xs, -, hchanged⟩ := bind_eq_ok.1 hchanged
    cases hchanged
    rfl

/-- The input starts with the conditions of the operand. -/
theorem SourceLayout.exists_rows {facts : List Fact} {limit : Nat} {vs : List Variable}
    {cs input : List Condition} {collectors : List Collector} {source : Option Variable}
    (h : SourceLayout vs cs collectors source input) {inner : List Row}
    (hinner : Condition.deriveAll .afresh facts limit [Row.empty] input = .ok inner) :
    ∃ rows, Condition.deriveAll .afresh facts limit [Row.empty] cs = .ok rows := by
  cases h with
  | none => exact ⟨inner, hinner⟩
  | some _ _ =>
    rw [Condition.deriveAll_append] at hinner
    obtain ⟨rows, hrows, -⟩ := bind_eq_ok.1 hinner
    exact ⟨rows, hrows⟩

theorem SourceLayout.facts {facts : List Fact} {limit : Nat} {vs : List Variable}
    {cs input : List Condition} {collectors : List Collector} {source : Option Variable}
    (h : SourceLayout vs cs collectors source input) {rows inner : List Row}
    (hrows : Condition.deriveAll .afresh facts limit [Row.empty] cs = .ok rows)
    (hinner : Condition.deriveAll .afresh facts limit [Row.empty] input = .ok inner) :
    inner.map (·.facts) = rows.map (·.facts) := by
  cases h with
  | none =>
    cases hrows.symm.trans hinner
    rfl
  | some _ binds =>
    rw [Condition.deriveAll_append, hrows] at hinner
    exact Condition.facts_deriveAll binds.singleton
      (List.forall_mem_singleton.2 ⟨_, _, _, rfl⟩) hinner

theorem KeyLayout.facts {facts : List Fact} {limit : Nat} {keys : List TupleFunction}
    {key : Option GroupKey} {vs : List Variable} {cs : List Condition}
    (h : KeyLayout keys key vs cs) {rows out : List Row}
    (hout : Condition.deriveAll .afresh facts limit rows cs = .ok out) :
    out.map (·.facts) = rows.map (·.facts) := by
  obtain ⟨steps, does, unpacks⟩ := h.exists_steps
  refine Condition.facts_deriveAll does (fun s hs => ?_) hout
  obtain ⟨k, -, v, -, index, rfl, -⟩ := unpacks s hs
  exact ⟨_, _, _, rfl⟩

theorem Grouping.facts_keyedAll {grouping : Grouping} {rows : List Row} {ks : List KeyedSource}
    (h : grouping.keyedAll rows = .ok ks) : ks.map (·.facts) = rows.map (·.facts) :=
  (map_eq_map_iff.2 ((keyedAll_eq_ok_iff.1 h).imp fun _ _ hk => (facts_of_keyed hk).symm)).symm

/-! ## Groups of rows with facts -/

/-- A row of values with the facts it was made from. -/
abbrev Traced := List Value × List Nat

/-- The keys that a packed key stands for. -/
def unpackedKey : List TupleFunction → Value → List Value
  | [], _ => []
  | [_], key => [key]
  | _, key => key.components

theorem unpackedKey_packedKey (keys : List TupleFunction) (x : List Value) :
    unpackedKey keys (packedKey keys x) = (keyTuple keys x).components := by
  rcases keys with _ | ⟨key, _ | ⟨key', keys⟩⟩
  · rfl
  · rfl
  · rfl

namespace GroupRequest

/-- The different packed keys of rows in ascending order. -/
def keysOf (request : GroupRequest) (rows : List Traced) : List Value :=
  Value.sort (Value.distinct (rows.map (packedKey request.keys ·.1)))

/-- The rows that fall under a packed key. -/
def members (request : GroupRequest) (rows : List Traced) (key : Value) : List Traced :=
  rows.filter (packedKey request.keys ·.1 == key)

/-- The values of the collectors over the rows that fall under a packed key. -/
def results (request : GroupRequest) (rows : List Traced) (key : Value) : List Value :=
  request.collectors.map (·.over ((request.members rows key).map (·.1)))

/-- The facts of the rows that fall under a packed key. -/
def factsUnder (request : GroupRequest) (rows : List Traced) (key : Value) : List Nat :=
  HandleSet.ascending ((request.members rows key).flatMap (·.2))

/-- The row of each group: its keys, the values of the collectors, and the facts of its members. -/
def regroup (request : GroupRequest) (rows : List Traced) : List Traced :=
  (request.keysOf rows).map fun key =>
    (unpackedKey request.keys key ++ request.results rows key, request.factsUnder rows key)

/-- The packed keys stand for the different vectors of keys, which are in ascending order too. -/
theorem exists_keysOf (request : GroupRequest) (rows : List Traced) :
    ∃ zs : List (List Value), request.keysOf rows = zs.map (packedKey request.keys) ∧
      Value.sort (Value.distinct (rows.map (keyTuple request.keys ·.1))) =
        zs.map (keyTuple request.keys) := by
  obtain ⟨zs, packed, vectors⟩ :=
    exists_representatives (compare_packedKey request.keys) (rows.map (·.1))
  rw [List.map_map] at packed vectors
  exact ⟨zs, packed, vectors⟩

theorem length_unpackedKey {request : GroupRequest} {rows : List Traced} {key : Value}
    (h : key ∈ request.keysOf rows) :
    (unpackedKey request.keys key).length = request.keys.length := by
  obtain ⟨zs, hzs, -⟩ := request.exists_keysOf rows
  rw [hzs, List.mem_map] at h
  obtain ⟨z, -, rfl⟩ := h
  rw [unpackedKey_packedKey]
  exact List.length_map _

/-- The facts of rows may be put in order before. -/
theorem regroup_ascending (request : GroupRequest) (rows : List Traced) :
    request.regroup (rows.map fun p => (p.1, HandleSet.ascending p.2)) =
      request.regroup rows := by
  have keys : request.keysOf (rows.map fun p => (p.1, HandleSet.ascending p.2)) =
      request.keysOf rows := by
    rw [keysOf, List.map_map]
    rfl
  have members : ∀ key, request.members (rows.map fun p => (p.1, HandleSet.ascending p.2)) key =
      (request.members rows key).map fun p => (p.1, HandleSet.ascending p.2) := by
    intro key
    rw [GroupRequest.members, List.filter_map]
    rfl
  rw [regroup, keys, regroup]
  refine List.map_congr_left fun key _ => ?_
  have results : request.results (rows.map fun p => (p.1, HandleSet.ascending p.2)) key =
      request.results rows key := by
    rw [GroupRequest.results, members, List.map_map]
    rfl
  have facts : request.factsUnder (rows.map fun p => (p.1, HandleSet.ascending p.2)) key =
      request.factsUnder rows key := by
    rw [factsUnder, members, List.flatMap_map]
    exact HandleSet.ascending_flatMap_ascending _ _
  rw [results, facts]

end GroupRequest

namespace Grouping

variable {request : GroupRequest} {source : Option Variable} {ks : List KeyedSource}
  {rows : List Traced}

/-- The keyed rows of a grouping in step with rows that have their facts. -/
def TracedAs (keys : List TupleFunction) (source : Option Variable) (k : KeyedSource)
    (p : Traced) : Prop := KeyedAs keys source k p.1 ∧ k.facts = p.2

theorem members_traced (h : List.Forall₂ (TracedAs request.keys source) ks rows) (key : Value) :
    List.Forall₂ (TracedAs request.keys source) (membersOf key ks) (request.members rows key) := by
  rw [membersOf, GroupRequest.members]
  refine List.rel_filter (fun k p hp => ?_) h
  show (k.key == key) = true ↔ (packedKey request.keys p.1 == key) = true
  rw [hp.1.1]

/-- The rows of groups made afresh: each binds key and results and lists the facts. -/
theorem regrouped_traced (key : Option GroupKey) (vs : List Variable)
    {outputs : List CollectorOutput}
    (measures : outputs.map (·.collector) = request.collectors)
    (sources : request.collectors ≠ [] → source.isSome = true)
    (h : List.Forall₂ (TracedAs request.keys source) ks rows) :
    regrouped ⟨vs, source, key, outputs⟩ ks = (request.keysOf rows).map fun k =>
      groupRow ⟨vs, source, key, outputs⟩ k (request.results rows k)
        (request.factsUnder rows k) := by
  have keys : ks.map (·.key) = rows.map (packedKey request.keys ·.1) :=
    map_eq_map_iff.2 (h.imp fun k p hp => hp.1.1)
  rw [regrouped, keys]
  refine List.map_congr_left fun k _ => ?_
  have under := members_traced h k
  have measured : measure ⟨vs, source, key, outputs⟩ (membersOf k ks) =
      request.results rows k := by
    rw [measure, collectors, measures, GroupRequest.results]
    refine List.map_congr_left fun c hc => ?_
    have bound := sources (List.ne_nil_of_mem hc)
    congr 1
    refine map_eq_map_iff.2 (under.imp fun k p hp => ?_)
    rw [hp.1.2 bound]
    rfl
  have facts : (membersOf k ks).map (·.facts) = (request.members rows k).map (·.2) :=
    map_eq_map_iff.2 (under.imp fun k p hp => hp.2)
  rw [measured, GroupRequest.factsUnder, List.flatMap_def, facts, ← List.flatMap_def]

end Grouping

/-! ## Conditions of a grouping -/

/-- How rows of bindings show rows of values and their facts. -/
def Row.Shows (vs : List Variable) (row : Row) (p : Traced) : Prop :=
  row.read vs = .ok p.1 ∧ row.facts = p.2

section
variable {request : GroupRequest} {vs keys : List Variable} {cs input components : List Condition}
  {source : Option Variable} {key : Option GroupKey} {outputs : List CollectorOutput}

/-- Once the keys are unpacked the rows of groups show what the groups are. -/
theorem KeyLayout.exists_unpacked (packs : KeyLayout request.keys key keys components) {id : Nat}
    (measures : outputs.map (·.collector) = request.collectors)
    (once : Condition.BindOnce (.group id ⟨vs, source, key, outputs⟩ input :: components))
    (facts : List Fact) (limit : Nat) (ts : List Traced) :
    ∃ out, Condition.deriveAll .afresh facts limit
        ((request.keysOf ts).map fun k => Grouping.groupRow ⟨vs, source, key, outputs⟩ k
          (request.results ts k) (request.factsUnder ts k)) components = .ok out ∧
      List.Forall₂ (Row.Shows (keys ++ outputs.map (·.bound))) out (request.regroup ts) := by
  have nodup := packs.nodup_visible rfl once
  have key_fresh := KeyLayout.fresh_outputs rfl once
  have outputs_nodup : ((outputs.map (·.bound)).map (·.id)).Nodup := by
    rw [List.map_append] at nodup
    exact (List.nodup_append.1 nodup).2.1
  have results_length : ∀ k, (request.results ts k).length = outputs.length := by
    intro k
    rw [GroupRequest.results, List.length_map, ← measures, List.length_map]
  obtain ⟨zs, hzs, -⟩ := request.exists_keysOf ts
  rw [hzs, List.map_map]
  have bound_in : List.Forall₂ (fun row z =>
      row.read (outputs.map (·.bound)) = .ok (request.results ts (packedKey request.keys z)) ∧
      ∀ k ∈ key, row.get k.bound = .ok (packedKey request.keys z))
      (zs.map ((fun k => Grouping.groupRow ⟨vs, source, key, outputs⟩ k (request.results ts k)
        (request.factsUnder ts k)) ∘ packedKey request.keys)) zs := by
    rw [List.forall₂_map_left_iff, List.forall₂_same]
    intro z _
    exact ⟨Grouping.read_groupRow ⟨vs, source, key, outputs⟩ (results_length _) outputs_nodup _ _,
      fun k hk => Grouping.get_groupRow ⟨vs, source, key, outputs⟩ _ _ _ hk (key_fresh k hk)⟩
  obtain ⟨out, hout, hread⟩ := packs.in_step facts limit nodup (KeyLayout.fresh rfl once) bound_in
  have out_facts : out.map (·.facts) =
      zs.map fun z => request.factsUnder ts (packedKey request.keys z) := by
    rw [packs.facts hout, List.map_map]
    rfl
  refine ⟨out, hout, ?_⟩
  rw [GroupRequest.regroup, hzs, List.map_map, List.forall₂_map_right_iff]
  refine (forall₂_and_of_map_eq hread out_facts).imp fun row z hz => ⟨?_, hz.2⟩
  rw [Function.comp_apply, unpackedKey_packedKey]
  exact hz.1

/-- The rows that a grouping and the conditions after it make of the rows of its operand.  It fails
only if there are too many groups. -/
theorem Condition.deriveAll_grouped (id : Nat) (bound : ∀ v ∈ vs, v ∈ cs.flatMap binds)
    (sources : SourceLayout vs cs request.collectors source input)
    (packs : KeyLayout request.keys key keys components)
    (measures : outputs.map (·.collector) = request.collectors)
    (once : BindOnce (.group id ⟨vs, source, key, outputs⟩ input :: components))
    {facts : List Fact} {limit : Nat} {rows : List Row}
    (hrows : deriveAll .afresh facts limit [Row.empty] cs = .ok rows) {ts : List Traced}
    (hshows : List.Forall₂ (Row.Shows vs) rows ts) :
    (0 < limit ∧ limit < (request.regroup ts).length ∧
      deriveAll .afresh facts limit [Row.empty]
        (.group id ⟨vs, source, key, outputs⟩ input :: components) =
        .error (.bindingLimitExceeded limit)) ∨
    (¬(0 < limit ∧ limit < (request.regroup ts).length) ∧
      ∃ out, deriveAll .afresh facts limit [Row.empty]
          (.group id ⟨vs, source, key, outputs⟩ input :: components) = .ok out ∧
        List.Forall₂ (Row.Shows (keys ++ outputs.map (·.bound))) out (request.regroup ts)) := by
  have source_fresh := sources.fresh (BindOnce.group_cons_iff.1 once).1.2 bound
  -- values and facts go into the groups side by side
  have values : List.Forall₂ (fun row x => row.read vs = .ok x) rows (ts.map (·.1)) := by
    rw [List.forall₂_map_right_iff]
    exact hshows.imp fun row p hp => hp.1
  have row_facts : rows.map (·.facts) = ts.map (·.2) :=
    map_eq_map_iff.2 (hshows.imp fun row p hp => hp.2)
  obtain ⟨inner, hinner, hinput⟩ := sources.in_step source_fresh hrows values
  obtain ⟨ks, hks, hkeyed⟩ := Grouping.keyedAll_in_step packs outputs hinput
  have key_facts : ks.map (·.facts) = ts.map (·.2) :=
    (Grouping.facts_keyedAll hks).trans ((sources.facts hrows hinner).trans row_facts)
  have traced : List.Forall₂ (Grouping.TracedAs request.keys source) ks ts :=
    forall₂_and_of_map_eq (List.forall₂_map_right_iff.1 hkeyed) key_facts
  have groups := Grouping.regrouped_traced key vs measures sources.isSome traced
  have crossed : (group id ⟨vs, source, key, outputs⟩ input).derive .afresh facts limit
      [Row.empty] = Row.cross limit [Row.empty] (Grouping.regrouped ⟨vs, source, key, outputs⟩ ks)
        Row.merge := by
    rw [derive, hinner]
    show (do let keyed ← Grouping.keyedAll _ inner; _) = _
    rw [hks]
    rfl
  have length : [Row.empty].length * (Grouping.regrouped ⟨vs, source, key, outputs⟩ ks).length =
      (request.regroup ts).length := by
    rw [groups, GroupRequest.regroup, List.length_map, List.length_map]
    exact Nat.one_mul _
  by_cases beyond : 0 < limit ∧ limit < (request.regroup ts).length
  · refine .inl ⟨beyond.1, beyond.2, ?_⟩
    rw [deriveAll, crossed, Row.cross, length, if_pos beyond]
    rfl
  · refine .inr ⟨beyond, ?_⟩
    have made : Row.cross limit [Row.empty]
        (Grouping.regrouped ⟨vs, source, key, outputs⟩ ks) Row.merge =
        .ok (Grouping.regrouped ⟨vs, source, key, outputs⟩ ks) := by
      rw [Row.cross, length, if_neg beyond, List.flatMap_singleton, funext Row.empty_merge,
        List.map_id']
    obtain ⟨out, hout, hshows⟩ := packs.exists_unpacked measures once facts limit ts
    refine ⟨out, ?_, hshows⟩
    rw [deriveAll, crossed, made, groups]
    exact hout

end

/-! ## Plans of groupings -/

/-- The values of a match and its facts; the weight is left out. -/
def Match.traced (m : Match) : Traced := (m.values, m.facts)

theorem Plan.matchesOf_shows (plan : Plan) {rows : List Row} {ts : List Traced}
    (h : List.Forall₂ (Row.Shows plan.visible) rows ts) : ∃ ms, plan.matchesOf rows = .ok ms ∧
      ms.map Match.traced = ts.map fun p => (p.1, HandleSet.ascending p.2) := by
  induction h with
  | nil => exact ⟨[], rfl, rfl⟩
  | @cons row p rows ts hp _ ih =>
    obtain ⟨ms, hms, htraced⟩ := ih
    refine ⟨⟨p.1, plan.weigher.weigh p.1, HandleSet.ascending row.facts⟩ :: ms, ?_, ?_⟩
    · rw [matchesOf, matchOf, hp.1, hms]
      rfl
    · rw [List.map_cons, List.map_cons, htraced, hp.2]
      rfl

/-- Rows that read as lists of values show them with facts of their own. -/
theorem exists_shows {vs : List Variable} {rows : List Row} {xs : List (List Value)}
    (h : List.Forall₂ (fun row x => row.read vs = .ok x) rows xs) :
    ∃ ts : List Traced, List.Forall₂ (Row.Shows vs) rows ts := by
  induction h with
  | nil => exact ⟨[], .nil⟩
  | @cons row x rows xs hx _ ih =>
    obtain ⟨ts, hts⟩ := ih
    exact ⟨(x, row.facts) :: ts, .cons ⟨hx, rfl⟩ hts⟩

/-- The plan is of a grouping that was made of the expression, which was built as the term. -/
inductive Plan.Groups (t : Term) (e : Expression) (request : GroupRequest) : Plan → Prop
  | intro {s s' : Supply} {es : List (Term × Expression)} {factory : Factory}
      {grouped : Expression} {w : Weigher} (built : Built s es) (operand : (t, e) ∈ es)
      (makes : (e.groupBy factory request).Yields s grouped s') :
      Groups t e request (grouped.toPlan w)

namespace Plan.Groups

variable {t : Term} {e : Expression} {request : GroupRequest} {plan : Plan}

/-- How the plan is laid out: the grouping, whose input starts with the conditions of the
expression, and then the conditions that take its key apart. -/
structure Laid (t : Term) (e : Expression) (request : GroupRequest) (plan : Plan) (id : Nat)
    (source : Option Variable) (key : Option GroupKey) (outputs : List CollectorOutput)
    (input : List Condition) (keys : List Variable) (components : List Condition) : Prop where
  flat : Flat t e.log.oldestFirst e.visible
  valid : request.validate = .ok ()
  sources : SourceLayout e.visible e.log.oldestFirst request.collectors source input
  packs : KeyLayout request.keys key keys components
  measures : outputs.map (·.collector) = request.collectors
  declared : ∀ output ∈ outputs, output.bound.type = .value
  visible : plan.visible = keys ++ outputs.map (·.bound)
  conditions : plan.conditions = .group id ⟨e.visible, source, key, outputs⟩ input :: components
  once : Condition.BindOnce plan.conditions

theorem exists_laid (h : plan.Groups t e request) :
    ∃ id source key outputs input keys components,
      Laid t e request plan id source key outputs input keys components := by
  cases h with
  | intro built operand makes =>
    obtain ⟨r, rfl, stands⟩ := built.exists_registry
    have operand_stands := stands _ operand
    obtain ⟨later, -, -, -, -, names, -, id, source, key, outputs, input, keys, components, valid,
      sources, packs, measures, declared, visible, conditions⟩ :=
      Registry.reaches_groupBy operand_stands.shapes makes
    exact ⟨id, source, key, outputs, input, keys, components,
      { flat := operand_stands.flat
        valid, sources, packs, measures, declared, visible, conditions
        once := (names operand_stands.names).once }⟩

variable {facts : List Fact} {limit : Nat}

/-- What the conditions of the expression make without error shows values and facts. -/
theorem exists_traced (flat : Flat t e.log.oldestFirst e.visible) {rows : List Row}
    (hrows : Condition.deriveAll .afresh facts limit [Row.empty] e.log.oldestFirst = .ok rows) :
    ∃ ts, List.Forall₂ (Row.Shows e.visible) rows ts := by
  obtain ⟨others, hothers, hread⟩ := flat.reads facts
  cases (Condition.deriveAll_unlimited _ hrows).symm.trans hothers
  exact exists_shows hread

/-- Where the grouping has matches the expression has matches. -/
theorem exists_operand (h : plan.Groups t e request) (w : Weigher) {ms : List Match}
    (hms : plan.derive .afresh facts limit = .ok ms) :
    ∃ base, (e.toPlan w).derive .afresh facts limit = .ok base := by
  obtain ⟨id, source, key, outputs, input, keys, components, laid⟩ := h.exists_laid
  obtain ⟨out, hout, -⟩ := bind_eq_ok.1 hms
  rw [laid.conditions] at hout
  obtain ⟨grouped, hgrouped, -⟩ := bind_eq_ok.1 hout
  obtain ⟨inner, hinner, -⟩ := bind_eq_ok.1 hgrouped
  obtain ⟨rows, hrows⟩ := laid.sources.exists_rows hinner
  obtain ⟨ts, hts⟩ := exists_traced laid.flat hrows
  obtain ⟨base, hbase, -⟩ := (e.toPlan w).matchesOf_shows hts
  refine ⟨base, ?_⟩
  show Condition.deriveAll .afresh facts limit [Row.empty] e.log.oldestFirst >>= _ = _
  rw [hrows]
  exact hbase

/-- **The matches of a grouping can be told from those of the expression.**  Under a limit it fails
only if there are too many groups. -/
theorem derive (h : plan.Groups t e request) {w : Weigher} {base : List Match}
    (hbase : (e.toPlan w).derive .afresh facts limit = .ok base) :
    (0 < limit ∧ limit < (request.regroup (base.map Match.traced)).length ∧
      plan.derive .afresh facts limit = .error (.bindingLimitExceeded limit)) ∨
    (¬(0 < limit ∧ limit < (request.regroup (base.map Match.traced)).length) ∧
      ∃ ms, plan.derive .afresh facts limit = .ok ms ∧
        ms.map Match.traced = request.regroup (base.map Match.traced)) := by
  obtain ⟨id, source, key, outputs, input, keys, components, laid⟩ := h.exists_laid
  obtain ⟨rows, hrows, hmatches⟩ := bind_eq_ok.1 hbase
  obtain ⟨ts, hts⟩ := exists_traced laid.flat hrows
  obtain ⟨others, hothers, traced⟩ := (e.toPlan w).matchesOf_shows hts
  cases hmatches.symm.trans hothers
  rw [traced, request.regroup_ascending]
  have once := laid.once
  rw [laid.conditions] at once
  rcases Condition.deriveAll_grouped id laid.flat.layout.visible_bound laid.sources laid.packs
    laid.measures once hrows hts with ⟨positive, many, fails⟩ | ⟨few, out, hout, hshows⟩
  · refine .inl ⟨positive, many, ?_⟩
    rw [Plan.derive, laid.conditions, fails]
    rfl
  · refine .inr ⟨few, ?_⟩
    rw [← laid.visible] at hshows
    obtain ⟨ms, hms, hmade⟩ := plan.matchesOf_shows hshows
    refine ⟨ms, ?_, hmade.trans ?_⟩
    · rw [Plan.derive, laid.conditions, hout]
      exact hms
    · -- the facts of a group are in ascending order already
      rw [GroupRequest.regroup, List.map_map]
      refine List.map_congr_left fun k _ => ?_
      rw [Function.comp_apply]
      refine Prod.ext rfl ?_
      exact HandleSet.ascending_eq_of_mem_iff fun n => HandleSet.mem_ascending

/-- The conditions of the plan respect equality if the functions of the term and of the request do,
and those of the expression are among them. -/
theorem respects (h : plan.Groups t e request) (respects : (Term.groupBy t request).Respects) :
    Condition.RespectsAll plan.conditions := by
  obtain ⟨id, source, key, outputs, input, keys, components, laid⟩ := h.exists_laid
  have layout : Layout (.groupBy t request) plan.conditions plan.visible := by
    rw [laid.conditions, laid.visible]
    exact .groupBy id laid.flat.layout laid.valid laid.sources laid.packs laid.measures
      laid.declared
  exact layout.respects respects

theorem operand_respects (h : plan.Groups t e request) (respects : t.Respects) (w : Weigher) :
    Condition.RespectsAll (e.toPlan w).conditions := by
  obtain ⟨_, _, _, _, _, _, _, laid⟩ := h.exists_laid
  exact laid.flat.respects respects

theorem operand_parts (h : plan.Groups t e request) (w : Weigher) :
    ∀ d ∈ Condition.partsAll (e.toPlan w).conditions,
      d ∈ Condition.partsAll plan.conditions := by
  obtain ⟨id, source, key, outputs, input, keys, components, laid⟩ := h.exists_laid
  intro d hd
  rw [laid.conditions, Condition.partsAll, Condition.parts]
  exact List.mem_append_left _ (List.mem_cons_of_mem _ (laid.sources.mem_partsAll hd))

end Plan.Groups

/-! ## Lists of equal values -/

namespace Value

variable {vs us ws : List Value}

theorem take_of_beq (h : (vs == us ++ ws) = true) : (vs.take us.length == us) = true := by
  rw [← senses_inj, List.map_take, senses_inj.2 h, ← List.map_take, List.take_left]

theorem drop_of_beq (h : (vs == us ++ ws) = true) : (vs.drop us.length == ws) = true := by
  rw [← senses_inj, List.map_drop, senses_inj.2 h, ← List.map_drop, List.drop_left]

theorem getElem?_of_beq (h : (vs == ws) = true) {index : Nat} {w : Value}
    (hw : ws[index]? = some w) : ∃ v, vs[index]? = some v ∧ (v == w) = true := by
  have same := congrArg (·[index]?) (senses_inj.2 h)
  simp only [List.getElem?_map, hw, Option.map_some, Option.map_eq_some_iff, sense_inj] at same
  exact same

end Value

/-! ## Answers of a session -/

/-- A match up to spelling, its weight apart. -/
def Match.view (m : Match) : List Sense × List Nat := (m.values.map Value.sense, m.facts)

/-- A row up to spelling. -/
def Traced.view (p : Traced) : List Sense × List Nat := (p.1.map Value.sense, p.2)

theorem Match.view_eq_iff {m : Match} {p : Traced} :
    m.view = p.view ↔ (m.values == p.1) = true ∧ m.facts = p.2 := by
  rw [Match.view, Traced.view, Prod.mk.injEq, Value.senses_inj]

theorem map_view_eq {ms : List Match} {ts : List Traced} (h : ms.map Match.traced = ts) :
    ms.map Match.view = ts.map Traced.view := by
  rw [← h, List.map_map]
  rfl

/-- What is made of one list twice goes in step. -/
theorem forall₂_of_map_eq {α β γ δ κ : Type} {f : α → γ} {g : β → δ} {p : κ → γ} {q : κ → δ}
    {as : List α} {bs : List β} {ks : List κ} (hf : as.map f = ks.map p)
    (hg : bs.map g = ks.map q) :
    List.Forall₂ (fun a b => ∃ k ∈ ks, f a = p k ∧ g b = q k) as bs := by
  have left := map_eq_map_iff.1 hf
  induction left generalizing bs with
  | nil =>
    rw [List.map_eq_nil_iff.1 hg]
    exact .nil
  | @cons a k as ks here _ ih =>
    cases bs with
    | nil => cases hg
    | cons b bs =>
      obtain ⟨hb, hbs⟩ := List.cons.inj hg
      refine .cons ⟨k, List.mem_cons_self, here, hb⟩ ((ih (List.cons.inj hf).2 hbs).imp ?_)
      rintro a' b' ⟨k', hk', related⟩
      exact ⟨k', List.mem_cons_of_mem _ hk', related⟩

namespace Plan

variable {plan : Plan}

theorem matchesOf_view {rows others : List Row} (h : Row.senses rows = Row.senses others) :
    (plan.matchesOf rows).map (·.map Match.view) =
      (plan.matchesOf others).map (·.map Match.view) := by
  refine plan.inTurn_matchesOf.congr plan.inTurn_matchesOf h fun r r' hr => ?_
  have facts : r.facts = r'.facts := congrArg (·.2) hr
  refine map_bind_congr (Row.read_congr hr plan.visible) fun as bs hs => map_pure_congr ?_
  rw [Match.view, Match.view, hs, facts]

/-- As `evaluate_recomputes`, for any weigher. -/
theorem evaluate_views {collectorsOf : Nat → List Collector}
    (agrees : ∀ d ∈ Condition.partsAll plan.conditions, d.SelfAgrees collectorsOf)
    (respects : Condition.RespectsAll plan.conditions) (visits : Visits) (facts : List Fact)
    (limit : Nat) :
    Evaluation.Ensures (GroupStore.Sound collectorsOf) (plan.evaluate visits facts limit) fun r =>
      r.map (·.map Match.view) = (plan.derive .afresh facts limit).map (·.map Match.view) :=
  (Condition.evaluateAll_recomputes visits facts limit rfl _ agrees respects).bind_congr
    fun _ _ hrows => .ofExcept (matchesOf_view hrows)

end Plan

theorem exists_ok_of_map_eq {α β : Type} {r other : Except SessionError α} {f : α → β}
    (h : r.map f = other.map f) {a : α} (ha : r = .ok a) : ∃ b, other = .ok b ∧ f a = f b := by
  subst ha
  cases other with
  | ok b => exact ⟨b, rfl, Except.ok.inj h⟩
  | error e => cases h

/-! ## Plans of one program -/

section
variable {s : Supply} {es : List (Term × Expression)}

/-- The plan is of one of the expressions. -/
def Plan.IsOf (es : List (Term × Expression)) (plan : Plan) : Prop :=
  ∃ p ∈ es, ∃ w, plan = p.2.toPlan w

/-- No plan is evaluated but those of the expressions. -/
def Request.Within (es : List (Term × Expression)) : Request → Prop
  | .evaluate plan _ => plan.IsOf es
  | _ => True

/-- The ids of conditions tell those of one program apart. -/
theorem Built.identified_pool (built : Built s es) {history : List Request}
    (asked : ∀ request ∈ history, request.Within es) {pool : List Plan}
    (known : ∀ plan ∈ pool, plan.IsOf es) : Condition.Identified
      (history.flatMap Request.conditions ++ pool.flatMap (·.conditions)) := by
  obtain ⟨r, -, stands⟩ := built.exists_registry
  have filed : ∀ plan : Plan, plan.IsOf es → ∀ c ∈ plan.conditions, c ∈ r.conditions := by
    rintro _ ⟨p, hp, w, rfl⟩ c hc
    exact (stands p hp).files.conditions c (Chain.mem_oldestFirst.1 hc)
  have all : ∀ c ∈ history.flatMap Request.conditions ++ pool.flatMap (·.conditions),
      c ∈ r.conditions := by
    intro c hc
    rcases List.mem_append.1 hc with hc | hc
    · obtain ⟨request, hrequest, hc⟩ := List.mem_flatMap.1 hc
      cases request with
      | evaluate other visits => exact filed other (asked _ hrequest) c hc
      | insert type value => cases hc
      | update handle value => cases hc
      | retract handle => cases hc
    · obtain ⟨plan, hplan, hc⟩ := List.mem_flatMap.1 hc
      exact filed plan (known plan hplan) c hc
  have parts := r.partsAll_subset all
  intro c hc d hd same
  exact r.identified c (parts c hc) d (parts d hd) same

theorem Built.identified (built : Built s es) {history : List Request}
    (asked : ∀ request ∈ history, request.Within es) {plan : Plan} (known : plan.IsOf es) :
    Condition.Identified (history.flatMap Request.conditions ++ plan.conditions) := by
  have alone := built.identified_pool asked (List.forall_mem_singleton.2 known)
  rwa [List.flatMap_singleton] at alone

/-- Without a limit every plan of a program has matches at every moment. -/
theorem Built.exists_matches (built : Built s es) {history : List Request}
    (asked : ∀ request ∈ history, request.Within es) {plan : Plan} (known : plan.IsOf es)
    (visits : Visits) :
    ∃ ms, (((Session.start 0).run history).evaluate plan visits).1 = .ok ms := by
  have identified := built.identified asked known
  obtain ⟨r, -, stands⟩ := built.exists_registry
  obtain ⟨p, hp, w, rfl⟩ := known
  have layout := (stands p hp).flat.layout
  exact Session.exists_matches identified
    (Plan.verify_of_isScoped layout.isScoped layout.visible_bound) visits

end

namespace Session

variable {limit : Nat} {history : List Request} {plan : Plan}

/-- After any history a plan that respects equality has the matches that are made afresh. -/
theorem evaluate_views (identified : Condition.Identified
      (history.flatMap Request.conditions ++ plan.conditions))
    (respects : Condition.RespectsAll plan.conditions) (visits : Visits) :
    (((start limit).run history).evaluate plan visits).1.map (·.map Match.view) =
      (plan.derive .afresh ((start limit).run history).facts limit).map (·.map Match.view) := by
  obtain ⟨collectorsOf, sound, own⟩ := sound_after limit identified
  have same : ((start limit).run history).maxBindings = limit := maxBindings_run _ _
  have views := (Plan.evaluate_views own respects visits ((start limit).run history).facts
    ((start limit).run history).maxBindings _ sound).1
  rw [same] at views
  refine Eq.trans ?_ views
  show ((Plan.evaluate _ _ _ ((start limit).run history).maxBindings).run.run _).1.map _ = _
  rw [same]

/-- **The answer to a grouping can be told from the matches of the expression**, up to spelling. -/
theorem evaluate_groups {t : Term} {e : Expression} {request : GroupRequest}
    (groups : plan.Groups t e request) (respects : (Term.groupBy t request).Respects)
    (identified : Condition.Identified
      (history.flatMap Request.conditions ++ plan.conditions))
    {visits : Visits} {ms : List Match}
    (hms : (((start limit).run history).evaluate plan visits).1 = .ok ms) (w : Weigher) :
    ∃ base, (e.toPlan w).derive .afresh ((start limit).run history).facts limit = .ok base ∧
      ms.map Match.view = (request.regroup (base.map Match.traced)).map Traced.view := by
  obtain ⟨made, hmade, views⟩ :=
    exists_ok_of_map_eq (evaluate_views identified (groups.respects respects) visits) hms
  obtain ⟨base, hbase⟩ := groups.exists_operand w hmade
  refine ⟨base, hbase, views.trans ?_⟩
  rcases groups.derive hbase with ⟨-, -, fails⟩ | ⟨-, others, hothers, traced⟩
  · cases fails.symm.trans hmade
  · cases hothers.symm.trans hmade
    exact map_view_eq traced

end Session

end MatchAlgebra
