import MatchAlgebra.Proofs.Typing

/-!
# Stages of an evaluation

An evaluation takes its rows through one condition after the other, and for a grouping it starts
anew with one empty row inside.  The rows at any stage of it are typed by what the conditions bind
that they have been through:

    first.Leads stage  →  first.Sound  →  stage.Sound                              (Sound.leads)

So every variable that a condition reads is bound when its turn comes (`Stage.Fits.reads`), a
component that is taken out of a packed key is there (`unpacks`), and the source that collectors are
fed with is the whole tuple that the grouping reads (`feeds`).
-/

namespace MatchAlgebra

/-! ## Evaluating step by step -/

theorem Evaluation.run_bind_eq_ok {α β : Type} {m : Evaluation α} {f : α → Evaluation β}
    {store store' : GroupStore} {b : β} : (m >>= f).run.run store = (.ok b, store') ↔
      ∃ a middle, m.run.run store = (.ok a, middle) ∧
        (f a).run.run middle = (.ok b, store') := by
  rw [ExceptT.run_bind, StateT.run_bind]
  generalize m.run.run store = out
  obtain ⟨r, middle⟩ := out
  cases r with
  | ok a =>
    refine ⟨fun h => ⟨a, middle, rfl, h⟩, ?_⟩
    rintro ⟨a', middle', heq, h⟩
    cases heq
    exact h
  | error e =>
    refine ⟨fun h => ?_, ?_⟩
    · cases h
    · rintro ⟨a', middle', heq, -⟩
      cases heq

theorem Condition.evaluateAll_append (visits : Visits) (facts : List Fact) (limit : Nat)
    (rows : List Row) (cs ds : List Condition) : evaluateAll visits facts limit rows (cs ++ ds) =
      evaluateAll visits facts limit rows cs >>= fun rows =>
        evaluateAll visits facts limit rows ds := by
  induction cs generalizing rows with
  | nil => rfl
  | cons c cs ih =>
    rw [List.cons_append, evaluateAll, evaluateAll, bind_assoc]
    congr 1
    funext rows
    exact ih rows

/-- Of conditions that end in a step the step is the last that is done to the rows. -/
theorem Condition.apply_of_evaluateAll {visits : Visits} {facts : List Fact} {limit : Nat}
    {rows out : List Row} {cs : List Condition} {id : Nat} {s : Step} {store store' : GroupStore}
    (h : (evaluateAll visits facts limit rows (cs ++ [.step id s])).run.run store =
      (.ok out, store')) :
    ∃ middle, s.apply facts limit middle = .ok out := by
  rw [evaluateAll_append] at h
  obtain ⟨middle, store₁, -, last⟩ := Evaluation.run_bind_eq_ok.1 h
  obtain ⟨bound, store₂, step, done⟩ := Evaluation.run_bind_eq_ok.1 last
  cases done
  exact ⟨middle, (Prod.mk.inj step).1⟩

/-- Where an evaluation stands: the partitions, the rows, the conditions that these have been
through and the conditions that are to come. -/
structure Stage where
  store : GroupStore
  rows : List Row
  done : List Condition
  todo : List Condition

/-- The evaluation gets from one stage to another.  The next condition succeeds, or it is a grouping
whose input is started. -/
inductive Stage.Leads (visits : Visits) (facts : List Fact) (limit : Nat) (first : Stage) :
    Stage → Prop
  | refl : Leads visits facts limit first first
  | next {store store' : GroupStore} {rows rows' : List Row} {done todo : List Condition}
      {c : Condition} (h : Leads visits facts limit first ⟨store, rows, done, c :: todo⟩)
      (evaluates : (c.evaluate visits facts limit rows).run.run store = (.ok rows', store')) :
      Leads visits facts limit first ⟨store', rows', done ++ [c], todo⟩
  | inside {store : GroupStore} {rows : List Row} {done todo input : List Condition} {id : Nat}
      {grouping : Grouping}
      (h : Leads visits facts limit first ⟨store, rows, done, .group id grouping input :: todo⟩) :
      Leads visits facts limit first ⟨store, [Row.empty], [], input⟩

/-- Conditions that can all be evaluated are gone through to the end. -/
theorem Stage.Leads.all {visits : Visits} {facts : List Fact} {limit : Nat} {first : Stage}
    {store store' : GroupStore} {rows out : List Row} {done todo : List Condition}
    (h : first.Leads visits facts limit ⟨store, rows, done, todo⟩)
    (evaluates :
      (Condition.evaluateAll visits facts limit rows todo).run.run store = (.ok out, store')) :
    first.Leads visits facts limit ⟨store', out, done ++ todo, []⟩ := by
  induction todo generalizing store rows done with
  | nil =>
    cases evaluates
    rwa [List.append_nil]
  | cons c todo ih =>
    obtain ⟨rows', middle, hc, hrest⟩ := Evaluation.run_bind_eq_ok.1 evaluates
    rw [← List.singleton_append, ← List.append_assoc]
    exact ih (.next h hc) hrest

/-! ## Sound stages -/

/-- The conditions come from a term, and are known, scoped and bind no variable twice. -/
structure Condition.Proper (es : List (Term × Expression)) (whole : Term)
    (pool cs : List Condition) : Prop where
  made : ∀ d ∈ partsAll cs, d.MadeBy es whole
  known : ∀ d ∈ partsAll cs, d ∈ partsAll pool
  isScoped : Scoped cs
  once : BindOnce cs

/-- The conditions inside a grouping are proper too. -/
theorem Condition.Proper.inside {es : List (Term × Expression)} {whole : Term}
    {pool before after input : List Condition} {id : Nat} {grouping : Grouping}
    (h : Proper es whole pool (before ++ .group id grouping input :: after)) :
    Proper es whole pool input := by
  have part : ∀ {P : Condition → Prop},
      (∀ d ∈ partsAll (before ++ .group id grouping input :: after), P d) →
      P (.group id grouping input) ∧ ∀ d ∈ partsAll input, P d := by
    intro P hP
    rw [partsAll_append, List.forall_mem_append, forall_partsAll_cons, forall_parts_group] at hP
    exact hP.2.1
  exact
    { made := (part h.made).2
      known := (part h.known).2
      isScoped := ⟨(part h.isScoped.inside).1.order, (part h.isScoped.inside).2⟩
      once := ⟨(part h.once.inside).1, (part h.once.inside).2⟩ }

namespace Stage

/-- The partitions are good and the rows typed, and what is to come is proper. -/
structure Sound (collectorsOf : Nat → List Collector) (es : List (Term × Expression)) (whole : Term)
    (pool : List Condition) (facts : List Fact) (stage : Stage) : Prop where
  store : GroupStore.Good collectorsOf pool stage.store
  proper : Condition.Proper es whole pool (stage.done ++ stage.todo)
  typed : ∀ row ∈ stage.rows, row.Typed facts (stage.done.flatMap Condition.binds)

variable {collectorsOf : Nat → List Collector} {es : List (Term × Expression)} {whole : Term}
  {pool : List Condition} {visits : Visits} {facts : List Fact} {limit : Nat}
  {first stage : Stage}

/-- Every stage that is reached from a sound one is sound. -/
theorem Sound.leads (h : first.Sound collectorsOf es whole pool facts)
    (identified : Condition.Identified pool)
    (agrees : ∀ d ∈ Condition.partsAll pool, d.SelfAgrees collectorsOf)
    (leads : first.Leads visits facts limit stage) :
    stage.Sound collectorsOf es whole pool facts := by
  induction leads with
  | refl => exact h
  | @next store store' rows rows' done todo c _ evaluates ih =>
    obtain ⟨good, proper, typed⟩ := ih
    have part : ∀ {P : Condition → Prop},
        (∀ d ∈ Condition.partsAll (done ++ c :: todo), P d) → ∀ d ∈ c.parts, P d := by
      intro P hP
      rw [Condition.partsAll_append, List.forall_mem_append, Condition.forall_partsAll_cons] at hP
      exact hP.2.1
    have split : done ++ c :: todo = done ++ ([c] ++ todo) := rfl
    have once := proper.once
    rw [split, ← List.append_assoc] at once
    have binds : [c].flatMap Condition.binds = c.binds := List.append_nil _
    have evaluated := Condition.evaluate_typed identified agrees (part proper.known)
      (part proper.made c c.self_mem_parts).wellTyped (binds ▸ once.left.right.here)
      (binds ▸ once.left.apart) typed visits limit store good
    rw [evaluates] at evaluated
    refine ⟨evaluated.2, ?_, ?_⟩
    · rwa [List.append_assoc]
    · rw [List.flatMap_append, binds]
      exact evaluated.1 rows' rfl
  | inside _ ih =>
    exact ⟨ih.store, ih.proper.inside, List.forall_mem_singleton.2 .empty⟩

end Stage

/-! ## What functions are handed -/

/-- Reading the variables gives the value of each in its place. -/
structure Row.Hands (row : Row) (vs : List Variable) (xs : List Value) : Prop where
  read : row.read vs = .ok xs
  values : List.Forall₂ (fun v x => row.get v = .ok x) vs xs

theorem Row.hands_of_read {row : Row} {vs : List Variable} {xs : List Value}
    (h : row.read vs = .ok xs) : row.Hands vs xs := ⟨h, Row.read_eq_ok_iff.1 h⟩

theorem Row.Typed.exists_hands {facts : List Fact} {row : Row} {vs ws : List Variable}
    (h : row.Typed facts vs) (hws : ∀ w ∈ ws, w ∈ vs) : ∃ xs, row.Hands ws xs := by
  obtain ⟨xs, hxs⟩ := h.read hws
  exact ⟨xs, Row.hands_of_read hxs⟩

theorem keyComponent_singleton {index : Nat} {xs : List Value} {x : Value}
    (h : xs[index]? = some x) : keyComponent index [.tuple xs] = x := by
  show (xs[index]?).getD .null = x
  rw [h]
  rfl

/-- The source is the tuple of what the grouping reads. -/
theorem SourceLayout.feeds {vs : List Variable} {cs input : List Condition}
    {collectors : List Collector} {source : Option Variable}
    (h : SourceLayout vs cs collectors source input) (fresh : ∀ s ∈ source, s.id ∉ vs.map (·.id))
    {visits : Visits} {facts : List Fact} {limit : Nat} {store store' : GroupStore}
    {rows out : List Row}
    (evaluates :
      (Condition.evaluateAll visits facts limit rows input).run.run store = (.ok out, store')) :
    ∀ row ∈ out, ∀ s ∈ source, ∀ xs, row.read vs = .ok xs → row.get s = .ok (.tuple xs) := by
  cases h with
  | none => exact fun row _ s hs => by cases hs
  | @some _ source c _ binds =>
    obtain ⟨id, rfl⟩ := binds
    obtain ⟨middle, applied⟩ := Condition.apply_of_evaluateAll evaluates
    refine Row.forall_change (Q := fun _ => True) (fun _ _ => trivial) ?_ applied
    intro row changed _ hchanged s hs xs hxs
    cases hs
    obtain ⟨ys, hys, hchanged⟩ := bind_eq_ok.1 hchanged
    cases hchanged
    rw [Row.read_bind_of_not_mem (fresh source rfl), hys] at hxs
    cases hxs
    rw [Row.get_bind, if_pos rfl]
    rfl

/-! ### What is fed -/

theorem sources_groupInputs {Q : Value → Prop} {rows : List KeyedSource}
    (h : ∀ row ∈ rows, Q row.source) (key : Value) :
    ∀ input ∈ (groupInputs rows)[key]?, Table.KeysAre Q input.sources := by
  have keeps : ∀ key : Value, ∀ input ∈ (groupInputs rows)[key]?,
      Table.KeysAre Q input.sources := by
    refine List.foldlRecOn (motive := fun groups : GroupInputs => ∀ key : Value,
      ∀ input ∈ groups[key]?, Table.KeysAre Q input.sources) rows _ ?_ ?_
    · intro key input hinput
      rw [Std.TreeMap.getElem?_emptyc] at hinput
      cases hinput
    · intro groups hgroups row hrow key input hinput
      rw [Table.getElem?_change] at hinput
      split at hinput
      · cases hinput
        refine Table.KeysAre.change ?_ (h row hrow) _
        cases hold : groups[row.key]? with
        | none => exact .empty
        | some old => exact hgroups row.key old hold
      · exact hgroups key input hinput
  exact keeps key

/-- What the change feeds, if it does, is as told. -/
def Change.Feeds (Q : Value → Prop) : Change → Prop
  | .retract _ _ => True
  | .insert _ source => Q source

/-- Changes feed what the rows hold. -/
theorem Partitions.feeds_changes {Q : Value → Prop} {rows : List KeyedSource}
    (h : ∀ row ∈ rows, Q row.source) (ps : Partitions) (tours : Tours) :
    ∀ c ∈ ps.changes tours (groupInputs rows), c.Feeds Q := by
  intro c hc
  rcases List.mem_append.1 hc with hc | hc
  · obtain ⟨_, -, hc⟩ := List.mem_flatMap.1 hc
    obtain ⟨_, -, hc⟩ := List.mem_flatMap.1 hc
    rw [(List.mem_replicate.1 hc).2]
    trivial
  · obtain ⟨entry, hentry, hc⟩ := List.mem_flatMap.1 hc
    obtain ⟨source, hsource, hc⟩ := List.mem_flatMap.1 hc
    rw [(List.mem_replicate.1 hc).2]
    have hinput := (Std.TreeMap.mem_toList_iff_getKey?_eq_some_and_getElem?_eq_some.1 hentry).2
    exact (sources_groupInputs h _ _ hinput).of_mem_keys ((tours.forth.perm _ _).mem_iff.1 hsource)

/-! ### What comes next -/

namespace Condition.MadeBy

variable {es : List (Term × Expression)} {whole : Term}

/-- What reads a tuple takes a component out of it. -/
theorem unpacks (laid : ∀ p ∈ es, Layout p.1 p.2.log.oldestFirst p.2.visible)
    {id : Nat} {bound key : Variable} {inputs : List Variable} {function : TupleFunction} {n : Nat}
    (h : (Condition.step id (.bind bound inputs function)).MadeBy es whole) (hkey : key ∈ inputs)
    (declared : key.type = .tuple n) :
    inputs = [key] ∧ ∃ index < n, function = keyComponent index := by
  cases h with
  | map _ _ operand =>
    exact absurd declared ((laid _ operand).visible_ne_tuple key hkey n)
  | source _ _ operand =>
    exact absurd declared ((laid _ operand).visible_ne_tuple key hkey n)
  | component _ _ key_declared place =>
    cases List.mem_singleton.1 hkey
    cases key_declared.symm.trans declared
    exact ⟨rfl, _, place, rfl⟩

/-- A grouping is fed with what it reads. -/
theorem feeds (laid : ∀ p ∈ es, Layout p.1 p.2.log.oldestFirst p.2.visible)
    {id : Nat} {grouping : Grouping} {input : List Condition}
    (h : (Condition.group id grouping input).MadeBy es whole) (once : Condition.BindOnce input)
    {visits : Visits} {facts : List Fact} {limit : Nat} {store store' : GroupStore}
    {rows out : List Row} (evaluates :
      (Condition.evaluateAll visits facts limit rows input).run.run store = (.ok out, store')) :
    ∀ row ∈ out, ∀ s ∈ grouping.source, ∀ xs, row.read grouping.inputs = .ok xs →
      row.get s = .ok (.tuple xs) := by
  cases h with
  | group _ _ operand sources =>
    exact sources.feeds (sources.fresh once (laid _ operand).visible_bound) evaluates

/-- A grouping with collectors has a source. -/
theorem source_isSome {id : Nat} {grouping : Grouping} {input : List Condition}
    (h : (Condition.group id grouping input).MadeBy es whole) (hne : grouping.outputs ≠ []) :
    grouping.source.isSome := by
  cases h with
  | group _ _ _ sources _ measures =>
    refine sources.isSome fun hnil => hne ?_
    rwa [hnil, List.map_eq_nil_iff] at measures

end Condition.MadeBy

namespace Stage

/-- What comes next finds the rows as it expects them.  Whatever it reads is bound.  A test of pairs
gets the left values and the right one.  What reads a tuple takes a component out of it, and the
tuple has that component.  A grouping has a source if it has collectors, and the source is the tuple
of all that the grouping reads, so that nothing but tuples of so many values is fed. -/
structure Fits (visits : Visits) (facts : List Fact) (limit : Nat) (stage : Stage) : Prop where
  typed : ∀ row ∈ stage.rows, row.Typed facts (stage.done.flatMap Condition.binds)
  reads : ∀ c rest, stage.todo = c :: rest → ∀ vs ⊆ c.reads, ∀ row ∈ stage.rows,
    ∃ xs, row.Hands vs xs
  pairs : ∀ id vs target filter rest, stage.todo =
    .step id (.filter (vs ++ [target]) (JoinPredicates.overPair filter vs.length)) :: rest →
    ∀ row ∈ stage.rows, ∃ xs x, row.Hands (vs ++ [target]) (xs ++ [x]) ∧ row.Hands vs xs ∧
      filter.overPair vs.length (xs ++ [x]) = filter.holds xs x
  unpacks : ∀ id bound inputs function key n rest,
    stage.todo = .step id (.bind bound inputs function) :: rest → key ∈ inputs →
    key.type = .tuple n → inputs = [key] ∧ ∃ index < n, function = keyComponent index ∧
      ∀ row ∈ stage.rows, ∃ xs x, row.get key = .ok (.tuple xs) ∧ xs.length = n ∧
        xs[index]? = some x ∧ function [.tuple xs] = x
  feeds : ∀ id grouping input rest, stage.todo = .group id grouping input :: rest →
    (grouping.outputs ≠ [] → grouping.source.isSome) ∧
    ∀ out store', (Condition.evaluateAll visits facts limit [Row.empty] input).run.run stage.store =
      (.ok out, store') →
      (∀ row ∈ out, ∃ xs, row.Hands grouping.inputs xs ∧
        ∀ source ∈ grouping.source, row.get source = .ok (.tuple xs)) ∧
      ∀ keyed, grouping.keyedAll out = .ok keyed → grouping.source.isSome →
        ∀ c ∈ (store'.getD id ∅).changes (visits id) (groupInputs keyed),
          c.Feeds fun source => ∃ xs, source = .tuple xs ∧ xs.length = grouping.inputs.length

variable {collectorsOf : Nat → List Collector} {es : List (Term × Expression)} {whole : Term}
  {pool : List Condition} {visits : Visits} {facts : List Fact} {limit : Nat} {stage : Stage}

/-- What is read next has been bound. -/
theorem Sound.exists_hands (h : stage.Sound collectorsOf es whole pool facts) {c : Condition}
    {rest : List Condition} (next : stage.todo = c :: rest) {vs : List Variable}
    (hvs : vs ⊆ c.reads) {row : Row} (hrow : row ∈ stage.rows) : ∃ xs, row.Hands vs xs :=
  (h.typed row hrow).exists_hands fun v hv =>
    h.proper.isScoped.order _ c rest (congrArg (stage.done ++ ·) next) v (hvs hv)

/-- What comes next was made by an operation. -/
theorem Sound.made (h : stage.Sound collectorsOf es whole pool facts) {c : Condition}
    {rest : List Condition} (next : stage.todo = c :: rest) : c.MadeBy es whole := by
  refine h.proper.made c ?_
  rw [next, Condition.partsAll_append]
  exact List.mem_append_right _ (List.mem_append_left _ c.self_mem_parts)

/-- Whatever comes next finds the rows as it expects them. -/
theorem Sound.fits (h : stage.Sound collectorsOf es whole pool facts)
    (identified : Condition.Identified pool)
    (agrees : ∀ d ∈ Condition.partsAll pool, d.SelfAgrees collectorsOf)
    (laid : ∀ p ∈ es, Layout p.1 p.2.log.oldestFirst p.2.visible) :
    stage.Fits visits facts limit where
  typed := h.typed
  reads c rest next vs hvs row hrow := h.exists_hands next hvs hrow
  pairs := by
    intro id vs target filter rest next row hrow
    obtain ⟨xs, hxs⟩ := h.exists_hands next (List.subset_append_left _ _) hrow
    obtain ⟨ys, hys⟩ := h.exists_hands next (List.subset_append_right _ _) hrow
    obtain ⟨x, rest, hx, hrest, rfl⟩ := List.forall₂_cons_left_iff.1 hys.values
    cases hrest
    refine ⟨xs, x, Row.hands_of_read (Row.read_append hxs.read hys.read), hxs, ?_⟩
    exact filter.overPair_append hxs.values.length_eq.symm [x]
  unpacks := by
    intro id bound inputs function key n rest next hkey declared
    obtain ⟨rfl, index, place, rfl⟩ := Condition.MadeBy.unpacks laid (h.made next) hkey declared
    refine ⟨rfl, index, place, rfl, fun row hrow => ?_⟩
    have known := h.proper.isScoped.order _ _ rest (congrArg (stage.done ++ ·) next) key hkey
    obtain ⟨x, hget, hx⟩ := (h.typed row hrow).bound key known
    rw [declared] at hx
    obtain ⟨xs, rfl, length⟩ := hx
    have component := List.getElem?_eq_getElem (length.symm ▸ place)
    exact ⟨xs, _, hget, length, component, keyComponent_singleton component⟩
  feeds := by
    intro id grouping input rest next
    obtain ⟨store, rows, done, todo⟩ := stage
    cases next
    refine ⟨(h.made rfl).source_isSome, fun out store' evaluates => ?_⟩
    -- the input is gone through to its end, so its rows are typed with all that it binds
    have inner : Leads visits facts limit ⟨store, rows, done, .group id grouping input :: rest⟩
        ⟨store, [Row.empty], [], input⟩ := .inside .refl
    have last := h.leads identified agrees (inner.all evaluates)
    have inside := h.proper.isScoped.inside (.group id grouping input)
      (Condition.partsAll_subset_right _ _ (List.mem_append_left _ (Condition.self_mem_parts _)))
    have tuples : ∀ row ∈ out, ∃ xs, row.Hands grouping.inputs xs ∧
        ∀ source ∈ grouping.source, row.get source = .ok (.tuple xs) := by
      intro row hrow
      obtain ⟨xs, hxs⟩ : ∃ xs, row.Hands grouping.inputs xs :=
        (last.typed row hrow).exists_hands fun v hv => inside.bound v (List.mem_append_left _ hv)
      refine ⟨xs, hxs, fun s hs => ?_⟩
      exact (h.made rfl).feeds laid h.proper.inside.once evaluates row hrow s hs xs hxs.read
    refine ⟨tuples, fun keyed hkeyed has_source => Partitions.feeds_changes (fun k hk => ?_) _ _⟩
    obtain ⟨s, hs⟩ := Option.isSome_iff_exists.1 has_source
    obtain ⟨row, hrow, heq⟩ := Grouping.exists_row_of_keyedAll hkeyed k hk
    obtain ⟨xs, hxs, hsource⟩ := tuples row hrow
    refine ⟨xs, ?_, hxs.values.length_eq.symm⟩
    exact Except.ok.inj ((Grouping.source_of_keyed heq hs).symm.trans (hsource s hs))

end Stage

end MatchAlgebra
