import MatchAlgebra.Proofs.Bindings
import MatchAlgebra.Proofs.Lockstep
import MatchAlgebra.Proofs.Origins

/-!
# Rows hold what variables are declared to hold

A variable that is declared for a fact is bound to the value of a live fact of its type, and one
that is declared for a tuple is bound to a tuple of so many components.  A row is typed if it binds
some variables, each to a value that its declaration admits, and nothing else.  Evaluating one more
condition gives rows that are typed with what it binds:

    rows typed by vs  →  c.WellTyped  →  rows after c typed by vs ++ c.binds       (evaluate_typed)

The keys of groups are bound from the partitions that are kept, in the spelling of an earlier
evaluation.  They have the right shape since every key that is kept is a result of the key function
(`GroupStore.Keyed`).
-/

namespace MatchAlgebra

/-! ## Declarations -/

/-- The values that a declaration allows. -/
def VariableType.Admits (facts : List Fact) : VariableType → Value → Prop
  | .fact type, x => ∃ fact ∈ facts, fact.type = type ∧ fact.value = x
  | .tuple degree, x => ∃ xs, x = .tuple xs ∧ xs.length = degree
  | .value, _ => True

/-- What the step binds is as declared, whatever it is given. -/
def Step.WellTyped : Step → Prop
  | .pattern bound type => bound.type = .fact type
  | .bind bound inputs function => ∀ facts xs, xs.length = inputs.length →
    bound.type.Admits facts (function xs)
  | _ => True

/-- What the grouping binds is as declared, whatever it is given. -/
structure Grouping.WellTyped (grouping : Grouping) : Prop where
  key : ∀ k ∈ grouping.key, ∀ facts xs, k.bound.type.Admits facts (k.function xs)
  outputs : ∀ output ∈ grouping.outputs, output.bound.type = .value

/-- What the condition itself binds, its input apart, is as declared. -/
def Condition.WellTyped : Condition → Prop
  | .step _ s => s.WellTyped
  | .group _ grouping _ => grouping.WellTyped

theorem KeyLayout.wellTyped {keys : List TupleFunction} {key : Option GroupKey}
    {vs : List Variable} {cs : List Condition} (h : KeyLayout keys key vs cs) :
    ∀ k ∈ key, ∀ facts xs, k.bound.type.Admits facts (k.function xs) := by
  rintro k hk facts xs
  cases h with
  | none => cases hk
  | one key declared =>
    cases hk
    rw [declared]
    trivial
  | packed _ _ declared =>
    cases hk
    rw [declared]
    exact ⟨_, rfl, List.length_map _⟩

theorem Condition.MadeBy.wellTyped {es : List (Term × Expression)} {whole : Term} {d : Condition}
    (h : d.MadeBy es whole) : d.WellTyped := by
  cases h with
  | pattern _ _ declared => exact declared
  | filter => trivial
  | comparison => trivial
  | predicates => trivial
  | existence => trivial
  | map _ _ _ declared => exact fun _ _ _ => declared ▸ trivial
  | source _ _ _ declared => exact fun _ xs hxs => declared ▸ ⟨xs, rfl, hxs⟩
  | component _ _ _ _ declared => exact fun _ _ _ => declared ▸ trivial
  | group _ _ _ _ packs _ declared => exact ⟨packs.wellTyped, declared⟩

/-! ## Typed rows -/

/-- The row binds the variables, each to a value that it is declared for, and no others. -/
structure Row.Typed (facts : List Fact) (vs : List Variable) (row : Row) : Prop where
  bound : ∀ v ∈ vs, ∃ x, row.get v = .ok x ∧ v.type.Admits facts x
  only : row.Within fun id => ∃ v ∈ vs, v.id = id

namespace Row.Typed

variable {facts : List Fact} {vs ws : List Variable} {row other : Row}

theorem empty : Row.empty.Typed facts [] :=
  ⟨fun _ hv => absurd hv List.not_mem_nil, fun _ hb => absurd hb List.not_mem_nil⟩

theorem bind (h : row.Typed facts vs) {v : Variable} (fresh : ∀ w ∈ vs, w.id ≠ v.id) {x : Value}
    (hx : v.type.Admits facts x) : (row.bind v x).Typed facts (vs ++ [v]) where
  bound := by
    refine List.forall_mem_append.2 ⟨fun w hw => ?_, List.forall_mem_singleton.2 ⟨x, ?_, hx⟩⟩
    · rw [Row.get_bind, if_neg (fresh w hw)]
      exact h.bound w hw
    · rw [Row.get_bind, if_pos rfl]
  only := by
    refine Row.Within.bind (fun b hb => ?_) ⟨v, List.mem_append_right _ List.mem_cons_self, rfl⟩ x
    obtain ⟨w, hw, heq⟩ := h.only b hb
    exact ⟨w, List.mem_append_left _ hw, heq⟩

theorem bindFact (h : row.Typed facts vs) {v : Variable} (fresh : ∀ w ∈ vs, w.id ≠ v.id)
    {fact : Fact} (hx : v.type.Admits facts fact.value) :
    (row.bindFact v fact).Typed facts (vs ++ [v]) :=
  ⟨(h.bind fresh hx).bound, (h.bind fresh hx).only⟩

theorem merge (h : row.Typed facts vs) (ho : other.Typed facts ws)
    (apart : ∀ v ∈ vs, ∀ w ∈ ws, v.id ≠ w.id) : (row.merge other).Typed facts (vs ++ ws) where
  bound := by
    refine List.forall_mem_append.2 ⟨fun v hv => ?_, fun w hw => ?_⟩
    · rw [Row.get_merge_of_within ho.only]
      · exact h.bound v hv
      · rintro ⟨w, hw, heq⟩
        exact apart v hv w hw heq.symm
    · obtain ⟨x, hget, hx⟩ := ho.bound w hw
      exact ⟨x, Row.get_merge hget row, hx⟩
  only := by
    refine Row.Within.merge (fun b hb => ?_) fun b hb => ?_
    · obtain ⟨v, hv, heq⟩ := h.only b hb
      exact ⟨v, List.mem_append_left _ hv, heq⟩
    · obtain ⟨w, hw, heq⟩ := ho.only b hb
      exact ⟨w, List.mem_append_right _ hw, heq⟩

/-- Reading does not fail. -/
theorem read (h : row.Typed facts vs) (hws : ∀ w ∈ ws, w ∈ vs) : ∃ xs, row.read ws = .ok xs :=
  row.inTurn_read.exists_ok fun w hw => (h.bound w (hws w hw)).imp fun _ => And.left

end Row.Typed

/-! ## Steps -/

theorem Step.apply_typed {s : Step} (hs : s.WellTyped) {facts : List Fact} {limit : Nat}
    {vs : List Variable} (fresh : ∀ v ∈ vs, ∀ w ∈ s.binds, v.id ≠ w.id) {rows out : List Row}
    (hrows : ∀ row ∈ rows, row.Typed facts vs) (h : s.apply facts limit rows = .ok out) :
    ∀ row ∈ out, row.Typed facts (vs ++ s.binds) := by
  have kept : ∀ {test : Row → Except SessionError Bool}, Row.keep test rows = .ok out →
      ∀ row ∈ out, row.Typed facts (vs ++ []) := by
    intro test h
    rw [List.append_nil]
    exact Row.forall_keep hrows h
  cases s with
  | pattern bound type =>
    refine Row.forall_cross (fun row hrow fact hfact => ?_) h
    obtain ⟨live, htype⟩ := List.mem_filter.1 hfact
    refine (hrows row hrow).bindFact (fun v hv => fresh v hv bound List.mem_cons_self) ?_
    rw [show bound.type = _ from hs]
    exact ⟨fact, live, of_decide_eq_true htype, rfl⟩
  | filter inputs predicate => exact kept h
  | join test => exact kept h
  | bind bound inputs function =>
    refine Row.forall_change hrows (fun row changed hrow hchanged => ?_) h
    obtain ⟨xs, hxs, hchanged⟩ := bind_eq_ok.1 hchanged
    cases hchanged
    have length : xs.length = inputs.length := (Row.read_eq_ok_iff.1 hxs).length_eq.symm
    exact hrow.bind (fun v hv => fresh v hv bound List.mem_cons_self) (hs facts xs length)
  | existence test => exact kept h

/-! ## Keys that are kept -/

theorem keysAre_groupInputs {Q : Value → Prop} {rows : List KeyedSource}
    (h : ∀ row ∈ rows, Q row.key) : Table.KeysAre Q (groupInputs rows) :=
  List.foldlRecOn rows _ .empty fun _ hgroups row hrow => hgroups.change (h row hrow) _

/-- The key that a change is about. -/
def Change.key : Change → Value
  | .retract key _ => key
  | .insert key _ => key

namespace Partitions

variable {Q : Value → Prop} {ps : Partitions} {target : GroupInputs}

theorem keysAre_apply (collectors : List Collector) (h : Table.KeysAre Q ps) {c : Change}
    (hc : Q c.key) : Table.KeysAre Q (apply collectors ps c) := by
  cases c with
  | retract key source =>
    unfold apply
    dsimp only
    split
    · split
      · exact h.erase key
      · exact h.change hc _
    · exact h
  | insert key source => exact h.change hc _

/-- A change is about a key that is there, or about one that is wanted. -/
theorem keysAre_changes (tours : Tours) (h : Table.KeysAre Q ps) (ht : Table.KeysAre Q target) :
    ∀ c ∈ ps.changes tours target, Q c.key := by
  intro c hc
  rcases List.mem_append.1 hc with hc | hc
  · obtain ⟨entry, hentry, hc⟩ := List.mem_flatMap.1 hc
    obtain ⟨_, -, hc⟩ := List.mem_flatMap.1 hc
    rw [(List.mem_replicate.1 hc).2]
    exact h.of_mem hentry
  · obtain ⟨entry, hentry, hc⟩ := List.mem_flatMap.1 hc
    obtain ⟨_, -, hc⟩ := List.mem_flatMap.1 hc
    rw [(List.mem_replicate.1 hc).2]
    exact ht.of_mem hentry

theorem keysAre_reconcile (collectors : List Collector) (tours : Tours) (h : Table.KeysAre Q ps)
    (ht : Table.KeysAre Q target) : Table.KeysAre Q (reconcile collectors tours ps target) := by
  have changes := keysAre_changes tours h ht
  rw [reconcile]
  generalize ps.changes tours target = cs at changes
  induction cs generalizing ps with
  | nil => exact h
  | cons c cs ih =>
    obtain ⟨hc, hcs⟩ := List.forall_mem_cons.1 changes
    exact ih (keysAre_apply collectors h hc) hcs

end Partitions

/-- The keys kept for a grouping among the conditions are results of its key function. -/
def GroupStore.Keyed (pool : List Condition) (store : GroupStore) : Prop :=
  ∀ id grouping input, .group id grouping input ∈ Condition.partsAll pool →
    ∀ k ∈ grouping.key, Table.KeysAre (fun key => ∃ xs, key = k.function xs) (store.getD id ∅)

theorem GroupStore.keyed_empty (pool : List Condition) : Keyed pool ∅ := by
  intro id grouping input _ k _
  rw [Std.TreeMap.getD_emptyc]
  exact .empty

/-- Every key and source comes from a row. -/
theorem Grouping.exists_row_of_keyedAll {grouping : Grouping} {rows : List Row}
    {keyed : List KeyedSource} (h : grouping.keyedAll rows = .ok keyed) :
    ∀ k ∈ keyed, ∃ row ∈ rows, grouping.keyed row = .ok k :=
  fun _ => exists_related_of_mem (keyedAll_eq_ok_iff.1 h)

theorem Grouping.key_of_keyedAll {grouping : Grouping} {rows : List Row} {keyed : List KeyedSource}
    (h : grouping.keyedAll rows = .ok keyed) {k : GroupKey} (hk : k ∈ grouping.key) :
    ∀ row ∈ keyed, ∃ xs, row.key = k.function xs := by
  intro row hrow
  obtain ⟨first, -, hfirst⟩ := exists_row_of_keyedAll h row hrow
  rw [keyed_eq, keyOf, Option.mem_def.1 hk] at hfirst
  obtain ⟨key, hkey, hfirst⟩ := bind_eq_ok.1 hfirst
  obtain ⟨source, -, hfirst⟩ := bind_eq_ok.1 hfirst
  cases hfirst
  obtain ⟨xs, -, hkey⟩ := bind_eq_ok.1 ((map_eq_pure_bind _ _).symm.trans hkey)
  cases hkey
  exact ⟨xs, rfl⟩

/-- The source of a row is what its source variable is bound to. -/
theorem Grouping.source_of_keyed {grouping : Grouping} {row : Row} {k : KeyedSource}
    (h : grouping.keyed row = .ok k) {s : Variable} (hs : s ∈ grouping.source) :
    row.get s = .ok k.source := by
  rw [keyed_eq] at h
  obtain ⟨key, -, h⟩ := bind_eq_ok.1 h
  obtain ⟨source, hsource, h⟩ := bind_eq_ok.1 h
  cases h
  rwa [sourceOf, Option.mem_def.1 hs] at hsource

/-- The facts of a row go with its key and source. -/
theorem Grouping.facts_of_keyed {grouping : Grouping} {row : Row} {k : KeyedSource}
    (h : grouping.keyed row = .ok k) : k.facts = row.facts := by
  rw [keyed_eq] at h
  obtain ⟨key, -, h⟩ := bind_eq_ok.1 h
  obtain ⟨source, -, h⟩ := bind_eq_ok.1 h
  cases h
  rfl

/-- Bringing partitions up to date keeps results of the key function. -/
theorem Condition.keeps_keyed {pool : List Condition} (identified : Identified pool)
    {d : Condition} (hd : d ∈ partsAll pool) : d.Keeps (GroupStore.Keyed pool) := by
  cases d with
  | step id s => trivial
  | group id grouping input =>
    intro tours rows keyed store hkeyed hstore id' grouping' input' mem' k hk
    show Table.KeysAre _ ((store.insert id _).getD id' ∅)
    rw [Std.TreeMap.getD_insert]
    split
    · next heq =>
      cases Nat.compare_eq_eq.1 heq
      cases identified _ mem' _ hd rfl
      exact Partitions.keysAre_reconcile _ tours (hstore id grouping input hd k hk)
        (keysAre_groupInputs (Grouping.key_of_keyedAll hkeyed hk))
    · exact hstore id' grouping' input' mem' k hk

/-! ## Groupings -/

/-- The row of a group is typed if its key is and there is a result for each collector. -/
theorem Grouping.groupRow_typed {grouping : Grouping} (hg : grouping.WellTyped)
    (nodup : (grouping.binds.map (·.id)).Nodup) {facts : List Fact} {key : Value}
    (hkey : ∀ k ∈ grouping.key, ∃ xs, key = k.function xs) {results : List Value}
    (length : results.length = grouping.collectors.length) (handles : List Nat) :
    (grouping.groupRow key results handles).Typed facts grouping.binds where
  bound := by
    rw [binds, List.map_append, List.nodup_append] at nodup
    refine List.forall_mem_append.2 ⟨fun v hv => ?_, fun v hv => ?_⟩
    · obtain ⟨k, hk, rfl⟩ := Option.map_eq_some_iff.1 (Option.mem_toList.1 hv)
      obtain ⟨xs, rfl⟩ := hkey k hk
      refine ⟨_, get_groupRow grouping _ results handles hk fun hmem => ?_, hg.key k hk facts xs⟩
      exact nodup.2.2 _ (List.mem_map_of_mem hv) _ hmem rfl
    · obtain ⟨x, hx⟩ := (binds_groupRow key length handles).get
        (contains_of_mem (List.mem_append_right _ hv))
      obtain ⟨output, houtput, rfl⟩ := List.mem_map.1 hv
      refine ⟨x, hx, ?_⟩
      rw [hg.outputs output houtput]
      trivial
  only := within_groupRow (fun v hv => ⟨v, hv, rfl⟩) key results handles

/-- What evaluation needs to know of the partitions that are kept. -/
structure GroupStore.Good (collectorsOf : Nat → List Collector) (pool : List Condition)
    (store : GroupStore) : Prop where
  sound : Sound collectorsOf store
  keyed : Keyed pool store

namespace Condition

variable {collectorsOf : Nat → List Collector} {pool : List Condition}

theorem keeps_good (identified : Identified pool)
    (agrees : ∀ d ∈ partsAll pool, d.SelfAgrees collectorsOf) :
    ∀ d ∈ partsAll pool, d.Keeps (GroupStore.Good collectorsOf pool) := by
  intro d hd
  have sound := (agrees d hd).keeps
  have keyed := keeps_keyed identified hd
  cases d with
  | step id s => trivial
  | group id grouping input =>
    exact fun tours rows ks store hkeyed hstore =>
      ⟨sound tours rows ks store hkeyed hstore.sound,
        keyed tours rows ks store hkeyed hstore.keyed⟩

end Condition

theorem Grouping.regroup_typed {collectorsOf : Nat → List Collector} {pool : List Condition}
    {store : GroupStore} (hstore : GroupStore.Good collectorsOf pool store) {id : Nat}
    {grouping : Grouping} {input : List Condition}
    (mem : .group id grouping input ∈ Condition.partsAll pool)
    (hid : grouping.collectors = collectorsOf id) (hg : grouping.WellTyped)
    (nodup : (grouping.binds.map (·.id)).Nodup) {rows : List Row} {keyed : List KeyedSource}
    (hkeyed : grouping.keyedAll rows = .ok keyed) (tours : Tours) (facts : List Fact) :
    ∀ row ∈ ((grouping.regroup tours id keyed).run store).1, row.Typed facts grouping.binds := by
  intro row hrow
  obtain ⟨⟨key, p⟩, hmem, rfl⟩ := List.mem_map.1 hrow
  have hp := (Std.TreeMap.mem_toList_iff_getKey?_eq_some_and_getElem?_eq_some.1 hmem).2
  obtain ⟨feed, -, ⟨⟨next, fused⟩, -⟩⟩ := (hid ▸ hstore.sound.getD id).reconcile _ key p hp
  refine groupRow_typed hg nodup (fun k hk => ?_) ?_ _
  · have kept := Partitions.keysAre_reconcile grouping.collectors tours
      (hstore.keyed id grouping input mem k hk)
      (keysAre_groupInputs (key_of_keyedAll hkeyed hk))
    exact kept.of_mem hmem
  · rw [Fused.results, List.length_map, fused.length_eq]

/-! ## Evaluation -/

/-- One more condition gives rows that are typed with what it binds. -/
theorem Condition.evaluate_typed {collectorsOf : Nat → List Collector} {pool : List Condition}
    (identified : Identified pool) (agrees : ∀ d ∈ partsAll pool, d.SelfAgrees collectorsOf)
    {c : Condition} (known : ∀ d ∈ c.parts, d ∈ partsAll pool) (typed : c.WellTyped)
    (nodup : (c.binds.map (·.id)).Nodup) {facts : List Fact} {vs : List Variable}
    (fresh : ∀ v ∈ vs, ∀ w ∈ c.binds, v.id ≠ w.id) {rows : List Row}
    (hrows : ∀ row ∈ rows, row.Typed facts vs) (visits : Visits) (limit : Nat) :
    Evaluation.Ensures (GroupStore.Good collectorsOf pool) (c.evaluate visits facts limit rows)
      fun r => ∀ out, r = .ok out → ∀ row ∈ out, row.Typed facts (vs ++ c.binds) := by
  have failed : ∀ (e : SessionError) (out : List Row), Except.error e = .ok out →
      ∀ row ∈ out, row.Typed facts (vs ++ c.binds) := fun _ _ h => by cases h
  cases c with
  | step id s => exact .ofExcept fun out h => s.apply_typed typed fresh hrows h
  | group id grouping input =>
    have keeps := keeps_good identified agrees
    obtain ⟨mem, hinput⟩ := forall_parts_group.1 known
    refine (evaluateAll_keeps visits facts limit _ input fun d hd => keeps d (hinput d hd)).bind
      (fun inner _ => ?_) fun e _ => failed e
    refine Evaluation.Ensures.bind (P := (grouping.keyedAll inner = ·)) (.ofExcept rfl)
      (fun keyed hkeyed => ?_) fun e _ => failed e
    refine Evaluation.Ensures.bind
      (P := fun r => ∀ grouped : List Row, r = .ok grouped →
        ∀ row ∈ grouped, row.Typed facts grouping.binds)
      (.lift fun store hstore => ⟨?_, ?_⟩) (fun grouped hgrouped => .ofExcept fun out h => ?_)
      fun e _ => failed e
    · intro grouped hgrouped
      cases hgrouped
      exact Grouping.regroup_typed hstore mem (agrees _ mem) typed nodup hkeyed _ facts
    · exact keeps _ mem _ inner keyed store hkeyed hstore
    · exact Row.forall_cross (fun row hrow other hother =>
        (hrows row hrow).merge (hgrouped grouped rfl other hother) fresh) h

end MatchAlgebra
