import MatchAlgebra.Proofs.Reconcile
import MatchAlgebra.Proofs.Rows

/-!
# Evaluation without memory

`derive` evaluates conditions without a store.  Where the rows of the groups come from is a
parameter.  They can be read off the rows of the input alone (`GroupRows.afresh`).  Whatever sound
partitions are kept, and on whatever tours tuples are fed, evaluation gives the rows or the error
that conditions give with groups made afresh, up to spelling, and keeps the partitions sound:

    evaluateAll visits rows cs  on a sound store  ≈  deriveAll .afresh rows cs
                                                                        (evaluateAll_recomputes)

The partitions kept under an id are sound for the collectors of the grouping with that id.  That
they stay sound needs nothing of the functions of the plan, nor that the evaluation succeeds
(`evaluateAll_keeps`).
-/

namespace MatchAlgebra

/-! ## Groups from rows -/

namespace KeyedSource

def sense (row : KeyedSource) : Sense × Sense × List Nat :=
  (row.key.sense, row.source.sense, row.facts)

end KeyedSource

theorem members_congr {rows others : List KeyedSource}
    (h : rows.map KeyedSource.sense = others.map KeyedSource.sense) {k k' : Value}
    (hk : k.sense = k'.sense) :
    (membersOf k rows).map KeyedSource.sense = (membersOf k' others).map KeyedSource.sense := by
  have by_sense : ∀ (v : Value) (l : List KeyedSource), (membersOf v l).map KeyedSource.sense =
      (l.map KeyedSource.sense).filter (·.1 == v.sense) := by
    intro v l
    rw [membersOf, List.filter_map]
    congr 2
    funext row
    exact (Value.sense_beq row.key v).symm
  rw [by_sense, by_sense, h, hk]

namespace Grouping

/-- The row of a group. -/
def groupRow (grouping : Grouping) (key : Value) (results : List Value) (facts : List Nat) : Row :=
  let keyed := match grouping.key with
    | some groupKey => Row.empty.bind groupKey.bound key
    | none => Row.empty
  let bound := (grouping.outputs.zip results).foldl
    (fun row (output, result) => row.bind output.bound result) keyed
  { bound with facts }

/-- The values of the collectors over the rows of a group. -/
def measure (grouping : Grouping) (members : List KeyedSource) : List Value :=
  grouping.collectors.map fun c => c.over (members.map (·.source.components))

/-- The row of each group of the given rows, in ascending order of their keys. -/
def regrouped (grouping : Grouping) (rows : List KeyedSource) : List Row :=
  (Value.sort (Value.distinct (rows.map (·.key)))).map fun k =>
    grouping.groupRow k (grouping.measure (membersOf k rows))
      (HandleSet.ascending ((membersOf k rows).flatMap (·.facts)))

theorem values_foldl_bind (outputs : List CollectorOutput) (results : List Value) (row : Row) :
    ((outputs.zip results).foldl (fun row (output, result) => row.bind output.bound result)
      row).values = ((outputs.map (·.bound.id)).zip results).reverse ++ row.values := by
  induction outputs generalizing results row with
  | nil => rfl
  | cons output outputs ih =>
    cases results with
    | nil => rfl
    | cons result results =>
      rw [List.zip_cons_cons, List.foldl_cons, ih, List.map_cons, List.zip_cons_cons,
        List.reverse_cons, List.append_assoc]
      rfl

/-- A group binds its results, the last of them first, and then its key. -/
theorem values_groupRow (grouping : Grouping) (key : Value) (results : List Value)
    (facts : List Nat) : (grouping.groupRow key results facts).values =
      ((grouping.outputs.map (·.bound.id)).zip results).reverse ++
        (grouping.key.map fun k => (k.bound.id, key)).toList := by
  refine (values_foldl_bind _ _ _).trans (congrArg _ ?_)
  cases grouping.key <;> rfl

theorem groupRow_congr (grouping : Grouping) {k k' : Value} (hk : k.sense = k'.sense)
    {rs rs' : List Value} (hr : rs.map Value.sense = rs'.map Value.sense) (facts : List Nat) :
    (grouping.groupRow k rs facts).sense = (grouping.groupRow k' rs' facts).sense := by
  have outputs : ∀ (ids : List VariableId) (rs : List Value),
      (ids.zip rs).map (fun b => (b.1, b.2.sense)) = ids.zip (rs.map Value.sense) :=
    fun ids rs => List.zip_map_right.symm
  refine Prod.ext ?_ rfl
  show (grouping.groupRow k rs facts).values.map _ = (grouping.groupRow k' rs' facts).values.map _
  rw [values_groupRow, values_groupRow, List.map_append, List.map_append, List.map_reverse,
    List.map_reverse, outputs, outputs, hr]
  cases grouping.key with
  | none => rfl
  | some groupKey => simp [hk]

theorem measure_congr {grouping : Grouping} (hg : grouping.Respects) {ms ms' : List KeyedSource}
    (h : ms.map KeyedSource.sense = ms'.map KeyedSource.sense) :
    (grouping.measure ms).map Value.sense = (grouping.measure ms').map Value.sense := by
  have sources : (ms.map (·.source)).map Value.sense = (ms'.map (·.source)).map Value.sense := by
    rw [List.map_map, List.map_map]
    exact map_eq_map_of_view h fun a b hab => congrArg (·.2.1) hab
  rw [measure, measure, List.map_map, List.map_map]
  refine List.map_congr_left fun c hc => ?_
  have := (hg.collectors c hc).over (.of_eq sources)
  rwa [List.map_map, List.map_map] at this

theorem regrouped_congr {grouping : Grouping} (hg : grouping.Respects)
    {rows others : List KeyedSource}
    (h : rows.map KeyedSource.sense = others.map KeyedSource.sense) :
    Row.senses (grouping.regrouped rows) = Row.senses (grouping.regrouped others) := by
  have keys : (Value.sort (Value.distinct (rows.map (·.key)))).map Value.sense =
      (Value.sort (Value.distinct (others.map (·.key)))).map Value.sense := by
    rw [Value.senses_sort, Value.senses_sort, Value.senses_distinct, Value.senses_distinct,
      List.map_map, List.map_map]
    congr 2
    exact map_eq_map_of_view h fun a b hab => congrArg (·.1) hab
  rw [Row.senses, Row.senses, regrouped, regrouped, List.map_map, List.map_map]
  refine map_eq_map_of_view keys fun k k' hk => ?_
  have members := members_congr h hk
  have facts : (membersOf k rows).map (·.facts) = (membersOf k' others).map (·.facts) :=
    map_eq_map_of_view members fun a b hab => congrArg (·.2.2) hab
  show (grouping.groupRow k _ (HandleSet.ascending _)).sense =
    (grouping.groupRow k' _ (HandleSet.ascending _)).sense
  rw [List.flatMap_def, facts, ← List.flatMap_def]
  exact grouping.groupRow_congr hk (measure_congr hg members) _

/-- The key that a row falls under; null without a key. -/
def keyOf (grouping : Grouping) (row : Row) : Except SessionError Value :=
  match grouping.key with
  | some key => key.function <$> row.read grouping.inputs
  | none => pure .null

/-- The source tuple of a row; null without a source. -/
def sourceOf (grouping : Grouping) (row : Row) : Except SessionError Value :=
  match grouping.source with
  | some source => row.get source
  | none => pure .null

theorem keyed_eq (grouping : Grouping) (row : Row) : grouping.keyed row = do
    let key ← grouping.keyOf row
    let source ← grouping.sourceOf row
    return ⟨key, source, row.facts⟩ := by
  obtain ⟨inputs, source, key, outputs⟩ := grouping
  cases key <;> cases source <;> rfl

theorem keyed_congr {grouping : Grouping} (hg : grouping.Respects) {r r' : Row}
    (h : r.sense = r'.sense) :
    (grouping.keyed r).map KeyedSource.sense = (grouping.keyed r').map KeyedSource.sense := by
  have facts : r.facts = r'.facts := congrArg (·.2) h
  have key : (grouping.keyOf r).map Value.sense = (grouping.keyOf r').map Value.sense := by
    unfold keyOf
    cases hkey : grouping.key with
    | none => rfl
    | some key =>
      exact map_bind_congr (Row.read_congr h grouping.inputs) fun as bs hab =>
        map_pure_congr ((hg.key key hkey).sense hab)
  have source : (grouping.sourceOf r).map Value.sense = (grouping.sourceOf r').map Value.sense := by
    unfold sourceOf
    cases grouping.source with
    | none => rfl
    | some source => exact Row.get_congr h source
  rw [keyed_eq, keyed_eq]
  refine map_bind_congr key fun k k' hk => map_bind_congr source fun s s' hs => map_pure_congr ?_
  rw [KeyedSource.sense, KeyedSource.sense, hk, hs, facts]

theorem inTurn_keyedAll (grouping : Grouping) : InTurn grouping.keyed grouping.keyedAll :=
  ⟨rfl, fun _ _ => rfl⟩

theorem keyedAll_eq_ok_iff {grouping : Grouping} {rows : List Row} {ks : List KeyedSource} :
    grouping.keyedAll rows = .ok ks ↔
      List.Forall₂ (fun row k => grouping.keyed row = .ok k) rows ks :=
  grouping.inTurn_keyedAll.eq_ok_iff

theorem keyedAll_congr {grouping : Grouping} (hg : grouping.Respects) {rows others : List Row}
    (h : Row.senses rows = Row.senses others) :
    (grouping.keyedAll rows).map (·.map KeyedSource.sense) =
      (grouping.keyedAll others).map (·.map KeyedSource.sense) :=
  grouping.inTurn_keyedAll.congr grouping.inTurn_keyedAll h fun _ _ => keyed_congr hg

end Grouping

/-! ## Deriving rows -/

/-- Where the rows of groups come from: the id of the condition, the grouping and the rows of its
input determine them. -/
abbrev GroupRows := Nat → Grouping → List KeyedSource → List Row

/-- Groups are made afresh. -/
def GroupRows.afresh : GroupRows := fun _ grouping rows => grouping.regrouped rows

namespace Condition

mutual

/-- What a condition makes of rows. -/
def derive (groups : GroupRows) (facts : List Fact) (limit : Nat) (rows : List Row) :
    Condition → Except SessionError (List Row)
  | .step _ s => s.apply facts limit rows
  | .group id grouping input => do
    let inner ← deriveAll groups facts limit [Row.empty] input
    let keyed ← grouping.keyedAll inner
    Row.cross limit rows (groups id grouping keyed) Row.merge

def deriveAll (groups : GroupRows) (facts : List Fact) (limit : Nat) (rows : List Row) :
    List Condition → Except SessionError (List Row)
  | [] => return rows
  | c :: cs => do
    let rows ← c.derive groups facts limit rows
    deriveAll groups facts limit rows cs

end

end Condition

/-- The matches of a plan. -/
def Plan.derive (plan : Plan) (groups : GroupRows) (facts : List Fact) (limit : Nat) :
    Except SessionError (List Match) := do
  let rows ← Condition.deriveAll groups facts limit [Row.empty] plan.conditions
  plan.matchesOf rows

/-! ## Computations that keep a store good -/

namespace Evaluation

variable {α β : Type} {good : GroupStore → Prop}

/-- Started on a good store, the computation leaves a good store, and its result is as told. -/
def Ensures (good : GroupStore → Prop) (m : Evaluation α)
    (post : Except SessionError α → Prop) : Prop :=
  ∀ store, good store → post (m.run.run store).1 ∧ good (m.run.run store).2

namespace Ensures

theorem ofExcept {r : Except SessionError α} {post : Except SessionError α → Prop} (h : post r) :
    Ensures good (.ofExcept r) post := fun _ hstore => ⟨h, hstore⟩

theorem lift {m : StateM GroupStore α} {post : Except SessionError α → Prop}
    (h : ∀ store, good store → post (.ok (m.run store).1) ∧ good (m.run store).2) :
    Ensures good (liftM m) post := h

theorem imp {m : Evaluation α} {P Q : Except SessionError α → Prop} (hm : Ensures good m P)
    (h : ∀ r, P r → Q r) : Ensures good m Q :=
  fun store hstore => ⟨h _ (hm store hstore).1, (hm store hstore).2⟩

theorem bind {m : Evaluation α} {f : α → Evaluation β} {P : Except SessionError α → Prop}
    {Q : Except SessionError β → Prop} (hm : Ensures good m P)
    (hf : ∀ a, P (.ok a) → Ensures good (f a) Q)
    (he : ∀ e, P (.error e) → Q (.error e)) : Ensures good (m >>= f) Q := by
  intro store hstore
  obtain ⟨hpost, hgood⟩ := hm store hstore
  rw [ExceptT.run_bind, StateT.run_bind]
  generalize m.run.run store = out at hpost hgood
  obtain ⟨r, store'⟩ := out
  cases r with
  | ok a => exact hf a hpost store' hgood
  | error e => exact ⟨he e hpost, hgood⟩

/-- What follows alike results with alike continuations is alike. -/
theorem bind_congr {γ δ : Type} {m : Evaluation α} {f : α → Evaluation β}
    {x : Except SessionError α} {g : α → Except SessionError β} {p : α → γ} {q : β → δ}
    (hm : Ensures good m fun r => r.map p = x.map p)
    (hf : ∀ a b, p a = p b → Ensures good (f a) fun r => r.map q = (g b).map q) :
    Ensures good (m >>= f) fun r => r.map q = (x >>= g).map q := by
  refine hm.bind (fun a ha => ?_) fun e he => ?_
  · cases x with
    | ok b => exact hf a b (Except.ok.inj ha)
    | error e => cases ha
  · cases x with
    | ok b => cases he
    | error e =>
      cases he
      rfl

end Ensures

end Evaluation

/-! ## Sound stores -/

/-- The partitions kept under an id are sound for the collectors that the id stands for. -/
def GroupStore.Sound (collectorsOf : Nat → List Collector) (store : GroupStore) : Prop :=
  ∀ (id : Nat) (ps : Partitions), store[id]? = some ps → Partitions.Sound (collectorsOf id) ps

namespace GroupStore

variable {collectorsOf : Nat → List Collector} {store : GroupStore}

theorem sound_empty : Sound collectorsOf ∅ := by
  intro id ps hps
  rw [Std.TreeMap.getElem?_emptyc] at hps
  cases hps

namespace Sound

theorem getD (h : Sound collectorsOf store) (id : Nat) :
    Partitions.Sound (collectorsOf id) (store.getD id ∅) := by
  rw [Std.TreeMap.getD_eq_getD_getElem?]
  cases hps : store[id]? with
  | none => exact Partitions.sound_empty _
  | some ps => exact h id ps hps

theorem insert (h : Sound collectorsOf store) {id : Nat} {ps : Partitions}
    (hps : Partitions.Sound (collectorsOf id) ps) : Sound collectorsOf (store.insert id ps) := by
  intro id' ps' hps'
  rw [Std.TreeMap.getElem?_insert] at hps'
  split at hps'
  · next heq =>
    cases hps'
    rwa [← Nat.compare_eq_eq.1 heq]
  · exact h id' ps' hps'

end Sound

end GroupStore

namespace Grouping

variable {collectorsOf : Nat → List Collector} {store : GroupStore} {grouping : Grouping} {id : Nat}

theorem sound_regroup (tours : Tours) (h : GroupStore.Sound collectorsOf store)
    (hid : grouping.collectors = collectorsOf id) (rows : List KeyedSource) :
    GroupStore.Sound collectorsOf ((grouping.regroup tours id rows).run store).2 :=
  h.insert (hid ▸ (h.getD id).reconcile _)

/-- The rows of the groups are those of groups made afresh. -/
theorem senses_regroup (tours : Tours) (h : GroupStore.Sound collectorsOf store)
    (hid : grouping.collectors = collectorsOf id) (hg : grouping.Respects)
    (rows : List KeyedSource) :
    Row.senses ((grouping.regroup tours id rows).run store).1 =
      Row.senses (grouping.regrouped rows) := by
  show Row.senses ((Partitions.reconcile _ _ _ _).toList.map _) = _
  rw [Row.senses, Row.senses, regrouped, List.map_map, List.map_map]
  refine map_eq_map_of_view
    (Partitions.entries_reconcile (hid ▸ h.getD id) hg.collectors rows) ?_
  rintro ⟨k, p⟩ k' hkk'
  obtain ⟨hk, hresults⟩ := Prod.mk.inj hkk'
  show (grouping.groupRow k p.fused.results _).sense = (grouping.groupRow k' _ _).sense
  rw [facts_groupInputs, membersOf_congr (Value.sense_inj.1 hk)]
  refine grouping.groupRow_congr hk (hresults.trans ?_) _
  rw [measure, List.map_map]
  rfl

end Grouping

/-! ## Evaluation keeps what regrouping keeps -/

namespace Condition

/-- Bringing the partitions of the grouping up to date keeps a store good. -/
def Keeps (good : GroupStore → Prop) : Condition → Prop
  | .step _ _ => True
  | .group id grouping _ => ∀ tours rows keyed store, grouping.keyedAll rows = .ok keyed →
    good store → good ((grouping.regroup tours id keyed).run store).2

variable {good : GroupStore → Prop}

mutual

theorem evaluate_keeps (visits : Visits) (facts : List Fact) (limit : Nat) (rows : List Row) :
    ∀ c : Condition, (∀ d ∈ c.parts, d.Keeps good) →
      Evaluation.Ensures good (c.evaluate visits facts limit rows) fun _ => True
  | .step _ _, _ => .ofExcept trivial
  | .group id grouping input, h => by
    obtain ⟨hgroup, hinput⟩ := forall_parts_group.1 h
    refine (evaluateAll_keeps visits facts limit [Row.empty] input hinput).bind (fun inner _ => ?_)
      fun _ _ => trivial
    refine Evaluation.Ensures.bind (P := (grouping.keyedAll inner = ·)) (.ofExcept rfl)
      (fun keyed hkeyed => ?_) fun _ _ => trivial
    refine Evaluation.Ensures.bind (P := fun _ => True) (.lift fun store hstore => ?_)
      (fun grouped _ => .ofExcept trivial) fun _ _ => trivial
    exact ⟨trivial, hgroup (visits id) inner keyed store hkeyed hstore⟩

/-- Evaluation leaves a good store, whether or not it succeeds. -/
theorem evaluateAll_keeps (visits : Visits) (facts : List Fact) (limit : Nat) (rows : List Row) :
    ∀ cs : List Condition, (∀ d ∈ partsAll cs, d.Keeps good) →
      Evaluation.Ensures good (evaluateAll visits facts limit rows cs) fun _ => True
  | [], _ => .ofExcept trivial
  | c :: cs, h => by
    obtain ⟨hc, hcs⟩ := forall_partsAll_cons.1 h
    exact (evaluate_keeps visits facts limit rows c hc).bind
      (fun rows _ => evaluateAll_keeps visits facts limit rows cs hcs) fun _ _ => trivial

end

/-- Whether a grouping, its input apart, has the collectors that its id stands for. -/
def SelfAgrees (collectorsOf : Nat → List Collector) : Condition → Prop
  | .step _ _ => True
  | .group id grouping _ => grouping.collectors = collectorsOf id

theorem SelfAgrees.keeps {collectorsOf : Nat → List Collector} {d : Condition}
    (h : d.SelfAgrees collectorsOf) : d.Keeps (GroupStore.Sound collectorsOf) := by
  cases d with
  | step id s => trivial
  | group id grouping input =>
    exact fun tours _ keyed _ _ hstore => Grouping.sound_regroup tours hstore h keyed

/-! ## Evaluation recomputes -/

variable {collectorsOf : Nat → List Collector}

mutual

theorem evaluate_recomputes (visits : Visits) (facts : List Fact) (limit : Nat)
    {rows others : List Row} (hrows : Row.senses rows = Row.senses others) :
    ∀ c : Condition, (∀ d ∈ c.parts, d.SelfAgrees collectorsOf) → c.Respects →
      Evaluation.Ensures (GroupStore.Sound collectorsOf) (c.evaluate visits facts limit rows)
        fun r => r.map Row.senses = (c.derive .afresh facts limit others).map Row.senses
  | .step _ s, _, hr => by
    have hs : s.Respects := hr _ (self_mem_parts _)
    exact .ofExcept (s.apply_congr hs facts limit hrows)
  | .group id grouping input, h, hr => by
    obtain ⟨hid, hinput⟩ := forall_parts_group.1 h
    obtain ⟨hg, hrinput⟩ := forall_parts_group.1 hr
    refine (evaluateAll_recomputes visits facts limit rfl input hinput hrinput).bind_congr
      fun inner inner' hinner => ?_
    refine Evaluation.Ensures.bind_congr
      (.ofExcept (Grouping.keyedAll_congr hg hinner)) fun keyed keyed' hkeyed => ?_
    refine Evaluation.Ensures.bind_congr (x := pure (grouping.regrouped keyed'))
      (g := fun grouped => Row.cross limit others grouped Row.merge) (p := Row.senses)
      (.lift fun store hstore => ⟨congrArg Except.ok ?_, ?_⟩)
      fun grouped grouped' hgrouped => .ofExcept ?_
    · rw [Grouping.senses_regroup (visits id) hstore hid hg]
      exact Grouping.regrouped_congr hg hkeyed
    · exact Grouping.sound_regroup (visits id) hstore hid keyed
    · exact Row.cross_congr hrows limit hgrouped fun r r' hr a b hab => Row.merge_congr hr hab

/-- **Evaluation recomputes.**  On a sound store conditions that respect equality give the rows, or
the error, that they give without any store. -/
theorem evaluateAll_recomputes (visits : Visits) (facts : List Fact) (limit : Nat)
    {rows others : List Row} (hrows : Row.senses rows = Row.senses others) :
    ∀ cs : List Condition, (∀ d ∈ partsAll cs, d.SelfAgrees collectorsOf) → RespectsAll cs →
      Evaluation.Ensures (GroupStore.Sound collectorsOf) (evaluateAll visits facts limit rows cs)
        fun r => r.map Row.senses = (deriveAll .afresh facts limit others cs).map Row.senses
  | [], _, _ => .ofExcept (map_pure_congr hrows)
  | c :: cs, h, hr => by
    obtain ⟨hc, hcs⟩ := forall_partsAll_cons.1 h
    obtain ⟨hrc, hrcs⟩ := forall_partsAll_cons.1 hr
    exact (evaluate_recomputes visits facts limit hrows c hc hrc).bind_congr fun _ _ hrows =>
      evaluateAll_recomputes visits facts limit hrows cs hcs hrcs

end

end Condition

end MatchAlgebra
