import MatchAlgebra.Proofs.Slots

/-!
# What a slot depends on

A slot depends on the conditions of its log.  Filters, existence checks, joins and maps keep the
logs of their operands, so what depends on a condition goes on to depend on it, through any number
of them:

    e.last.dependsOn c  →  f.last.dependsOn c                          (Derivation.dependsOn)

A grouping starts a log of its own, with the conditions of its operand inside its first condition.
They are still there (`Derivation.involves`), but no slot of the grouping depends on any of them
(`not_dependsOn_groupBy`), since `dependsOn` does not look inside.
-/

namespace MatchAlgebra

/-! ## Derivations -/

/-- An operation makes an expression of another, with those of `es` at its side; groupings are
marked. -/
inductive Leads (s : Supply) (es : List (Term × Expression)) (t : Term) (e : Expression) :
    Bool → Term → Expression → Supply → Prop
  | filter {s' : Supply} {f : Expression} {predicate : TuplePredicate}
      (makes : (e.filter predicate).Yields s f s') : Leads s es t e false (.filter t predicate) f s'
  | existence {s' : Supply} {f : Expression} {factory : Factory} {quantifier : Quantifier}
      {type : FactType} {joiners : List Joiner}
      (makes : (e.checkExistence factory quantifier type joiners).Yields s f s') :
      Leads s es t e false (.existence t quantifier type joiners) f s'
  | map {s' : Supply} {f : Expression} {factory : Factory} {function : TupleFunction}
      (makes : (e.map factory function).Yields s f s') : Leads s es t e false (.map t function) f s'
  | joinLeft {s' : Supply} {other : Term} {o f : Expression} {joiners : List Joiner}
      (known : (other, o) ∈ es) (makes : (e.join o joiners).Yields s f s') :
      Leads s es t e false (.join t other joiners) f s'
  | joinRight {s' : Supply} {other : Term} {o f : Expression} {joiners : List Joiner}
      (known : (other, o) ∈ es) (makes : (o.join e joiners).Yields s f s') :
      Leads s es t e false (.join other t joiners) f s'
  | groupBy {s' : Supply} {f : Expression} {factory : Factory} {request : GroupRequest}
      (makes : (e.groupBy factory request).Yields s f s') :
      Leads s es t e true (.groupBy t request) f s'

theorem Leads.derives {s s' : Supply} {es : List (Term × Expression)} {t t' : Term}
    {e f : Expression} {grouping : Bool} (h : Leads s es t e grouping t' f s')
    (operand : (t, e) ∈ es) : Derives s es t' f s' := by
  cases h with
  | filter makes => exact .filter operand makes
  | existence makes => exact .existence operand makes
  | map makes => exact .map operand makes
  | joinLeft known makes => exact .join operand known makes
  | joinRight known makes => exact .join known operand makes
  | groupBy makes => exact .groupBy operand makes

/-- One expression is derived from another by operations one after the other, while other
expressions are built in between; it is told whether there was a grouping among them. -/
inductive Derivation (e : Expression) :
    Supply → List (Term × Expression) → Bool → Term → Expression → Prop
  | start {s : Supply} {es : List (Term × Expression)} {t : Term} (built : Built s es)
      (known : (t, e) ∈ es) : Derivation e s es false t e
  | other {s s' : Supply} {es : List (Term × Expression)} {grouped : Bool} {t : Term}
      {f : Expression} (h : Derivation e s es grouped t f) (later : s.Before s') :
      Derivation e s' es grouped t f
  | meanwhile {s s' : Supply} {es : List (Term × Expression)} {grouped : Bool} {t other : Term}
      {f o : Expression} (h : Derivation e s es grouped t f) (derives : Derives s es other o s') :
      Derivation e s' ((other, o) :: es) grouped t f
  | step {s s' : Supply} {es : List (Term × Expression)} {grouped grouping : Bool} {t t' : Term}
      {f f' : Expression} (h : Derivation e s es grouped t f)
      (leads : Leads s es t f grouping t' f' s') :
      Derivation e s' ((t', f') :: es) (grouped || grouping) t' f'

theorem Built.of_derives {s s' : Supply} {es : List (Term × Expression)} {t : Term}
    {e : Expression} (h : Built s es) (derives : Derives s es t e s') :
    Built s' ((t, e) :: es) := by
  cases derives with
  | forEach makes => exact h.forEach makes
  | filter operand makes => exact h.filter operand makes
  | join left_operand right_operand makes => exact h.join left_operand right_operand makes
  | existence operand makes => exact h.existence operand makes
  | map operand makes => exact h.map operand makes
  | groupBy operand makes => exact h.groupBy operand makes

theorem Derivation.built {e f : Expression} {s : Supply} {es : List (Term × Expression)}
    {grouped : Bool} {t : Term} (h : Derivation e s es grouped t f) :
    Built s es ∧ (t, f) ∈ es := by
  induction h with
  | start built known => exact ⟨built, known⟩
  | other _ later ih => exact ⟨ih.1.other later, ih.2⟩
  | meanwhile _ derives ih => exact ⟨ih.1.of_derives derives, List.mem_cons_of_mem _ ih.2⟩
  | step _ leads ih => exact ⟨ih.1.of_derives (leads.derives ih.2), List.mem_cons_self⟩

/-! ## Conditions of a log -/

theorem Slot.dependsOn_iff {slot : Slot} {c : Condition} :
    slot.dependsOn c = true ↔ ∃ d ∈ slot.log.oldestFirst, d.id = c.id := by
  have same : ∀ d : Condition, (d == c) = true ↔ d.id = c.id := fun d => by
    show (d.id == c.id) = true ↔ _
    exact beq_iff_eq
  simp only [dependsOn, Chain.contains, List.any_eq_true, same, Chain.mem_oldestFirst]

namespace Expression

variable {e f : Expression} {c : Condition}

/-- No slot is affected just where none depends on the condition. -/
theorem affectedSlots_eq_nil_iff :
    e.affectedSlots c = [] ↔ ∀ slot ∈ e.slots, slot.dependsOn c = false := by
  rw [affectedSlots, List.map_eq_nil_iff, List.filter_eq_nil_iff]
  constructor
  · intro h slot hslot
    obtain ⟨i, hi⟩ := List.getElem?_of_mem hslot
    have := h (slot, i) (List.mk_mem_zipIdx_iff_getElem?.2 hi)
    simpa using this
  · rintro h ⟨slot, i⟩ hmem
    simpa using h slot (List.fst_mem_of_mem_zipIdx hmem)

theorem affectedSlots_ne_nil (h : e.last.dependsOn c = true) : e.affectedSlots c ≠ [] := by
  intro none_affected
  have last : e.last ∈ e.slots := List.mem_append_right _ List.mem_cons_self
  rw [affectedSlots_eq_nil_iff.1 none_affected _ last] at h
  cases h

/-- The condition is in the log or in the input of a grouping there, at whatever depth. -/
def Involves (e : Expression) (c : Condition) : Prop :=
  ∃ d ∈ Condition.partsAll e.log.oldestFirst, d.id = c.id

end Expression

namespace Registry

variable {r : Registry} {s : Supply} {es : List (Term × Expression)} {t t' : Term}
  {e f : Expression} {grouping : Bool} {c : Condition}

/-- The last slot depends on the conditions of the expression. -/
theorem Shapes.dependsOn_last_iff (h : r.Shapes t e) :
    e.last.dependsOn c = true ↔ ∃ d ∈ e.log.oldestFirst, d.id = c.id := by
  rw [h.inStep.log]
  exact Slot.dependsOn_iff

/-- The last log holds what any log of the expression holds. -/
theorem Shapes.dependsOn_last (h : r.Shapes t e) {slot : Slot} (hslot : slot ∈ e.slots)
    (depends : slot.dependsOn c = true) : e.last.dependsOn c = true := by
  obtain ⟨d, hd, same⟩ := Slot.dependsOn_iff.1 depends
  have begins := (h.growing.begins_of_mem slot hslot).isPrefix
  exact h.dependsOn_last_iff.2 ⟨d, begins.subset hd, same⟩

/-- An operation that is no grouping keeps the conditions of its operands. -/
theorem log_subset_of_leads (h : r.Shapes t e) (others : ∀ p ∈ es, r.Shapes p.1 p.2)
    (leads : Leads r.supply es t e false t' f s) : e.log.oldestFirst ⊆ f.log.oldestFirst := by
  cases leads with
  | filter makes =>
    obtain ⟨_, -, -, -, -, -, c, -, conditions⟩ := reaches_require h makes
    rw [conditions]
    exact List.subset_append_left _ _
  | existence makes =>
    obtain ⟨rule, candidate, middle, -, hcreate, makes⟩ := existence_yields makes
    obtain ⟨r₁, rfl, before₁, -⟩ := reaches_create hcreate
    obtain ⟨_, -, -, -, -, -, c, -, conditions⟩ := reaches_require (h.grow before₁.toGrows) makes
    rw [conditions]
    exact List.subset_append_left _ _
  | map makes =>
    obtain ⟨_, -, -, -, -, bound, c, -, -, -, -, conditions⟩ := reaches_map h makes
    rw [conditions]
    exact List.subset_append_left _ _
  | joinLeft known makes =>
    obtain ⟨_, -, -, -, -, -, rule, tests, -, conditions, -⟩ :=
      reaches_join h (others _ known) makes
    rw [conditions, List.append_assoc]
    exact List.subset_append_left _ _
  | joinRight known makes =>
    obtain ⟨_, -, -, -, -, -, rule, tests, -, conditions, -⟩ :=
      reaches_join (others _ known) h makes
    rw [conditions, List.append_assoc]
    exact List.subset_append_of_subset_right _ (List.subset_append_left _ _)

/-- Every operation keeps them at some depth. -/
theorem involves_of_leads (h : r.Shapes t e) (others : ∀ p ∈ es, r.Shapes p.1 p.2)
    (leads : Leads r.supply es t e grouping t' f s) (involves : e.Involves c) : f.Involves c := by
  obtain ⟨d, hd, same⟩ := involves
  refine ⟨d, ?_, same⟩
  cases grouping with
  | false =>
    obtain ⟨outer, houter, hd⟩ := Condition.mem_partsAll.1 hd
    exact Condition.mem_partsAll.2 ⟨outer, log_subset_of_leads h others leads houter, hd⟩
  | true =>
    cases leads with
    | groupBy makes =>
      obtain ⟨_, -, -, -, -, -, -, id, source, key, outputs, input, keys, components, -, sources,
        -, -, -, -, conditions⟩ := reaches_groupBy h makes
      rw [conditions]
      exact List.mem_append_left _ (List.mem_cons_of_mem _ (sources.mem_partsAll hd))

/-- No slot of a grouping depends on anything that was there before it. -/
theorem not_dependsOn_groupBy (h : r.Shapes t e) {factory : Factory} {request : GroupRequest}
    (makes : (e.groupBy factory request).Yields r.supply f s)
    (depends : e.last.dependsOn c = true) :
    ∀ slot ∈ f.slots, slot.dependsOn c = false := by
  obtain ⟨_, -, -, -, growing, -, new, -⟩ := reaches_groupBy h makes
  obtain ⟨d, hd, same⟩ := h.dependsOn_last_iff.1 depends
  intro slot hslot
  rw [Bool.eq_false_iff]
  intro later
  obtain ⟨x, hx, same'⟩ := Slot.dependsOn_iff.1 later
  have known := h.files.conditions d (Chain.mem_oldestFirst.1 hd)
  have begins := (growing.begins_of_mem slot hslot).isPrefix
  exact new x (begins.subset hx) d known (same.trans same'.symm)

end Registry

/-! ## Derivations of any length -/

namespace Derivation

variable {e f : Expression} {s : Supply} {es : List (Term × Expression)} {grouped : Bool}
  {t : Term} {c : Condition}

theorem exists_registry (h : Derivation e s es grouped t f) :
    ∃ r : Registry, r.supply = s ∧ (∀ p ∈ es, r.Shapes p.1 p.2) ∧ r.Shapes t f := by
  obtain ⟨built, known⟩ := h.built
  obtain ⟨r, hr, stands⟩ := built.exists_registry
  exact ⟨r, hr, fun p hp => (stands p hp).shapes, (stands _ known).shapes⟩

/-- Without a grouping on the way what an expression depends on is kept. -/
theorem dependsOn (h : Derivation e s es grouped t f) (ungrouped : grouped = false)
    (depends : ∃ slot ∈ e.slots, slot.dependsOn c = true) : f.last.dependsOn c = true := by
  induction h with
  | start built known =>
    obtain ⟨slot, hslot, depends⟩ := depends
    obtain ⟨r, -, -, shapes⟩ := (Derivation.start built known).exists_registry
    exact shapes.dependsOn_last hslot depends
  | other _ _ ih => exact ih ungrouped
  | meanwhile _ _ ih => exact ih ungrouped
  | step h leads ih =>
    obtain ⟨rfl, rfl⟩ := Bool.or_eq_false_iff.1 ungrouped
    obtain ⟨r, rfl, others, shapes⟩ := h.exists_registry
    obtain ⟨_, -, -, made⟩ := (h.step leads).exists_registry
    obtain ⟨d, hd, same⟩ := shapes.dependsOn_last_iff.1 (ih rfl)
    exact made.dependsOn_last_iff.2
      ⟨d, Registry.log_subset_of_leads shapes others leads hd, same⟩

/-- It is kept at some depth whatever the operations. -/
theorem involves (h : Derivation e s es grouped t f)
    (depends : ∃ slot ∈ e.slots, slot.dependsOn c = true) : f.Involves c := by
  induction h with
  | start built known =>
    have start := Derivation.start built known
    obtain ⟨_, -, -, shapes⟩ := start.exists_registry
    obtain ⟨d, hd, same⟩ := shapes.dependsOn_last_iff.1 (start.dependsOn rfl depends)
    exact ⟨d, Condition.mem_partsAll.2 ⟨d, hd, d.self_mem_parts⟩, same⟩
  | other _ _ ih => exact ih
  | meanwhile _ _ ih => exact ih
  | step h leads ih =>
    obtain ⟨r, rfl, others, shapes⟩ := h.exists_registry
    exact Registry.involves_of_leads shapes others leads ih

end Derivation

namespace Expression

/-- **Dependencies are kept up to the next grouping.**  Along a derivation without a grouping the
last slot goes on to depend on all that some slot of the first expression depends on.  A grouping
keeps it inside its condition only, so that no change to it is reported any more. -/
theorem dependencies_kept {e f : Expression} {s : Supply} {es : List (Term × Expression)}
    {grouped : Bool} {t : Term} (h : Derivation e s es grouped t f) {c : Condition}
    (depends : ∃ slot ∈ e.slots, slot.dependsOn c = true) :
    (grouped = false → f.last.dependsOn c = true ∧ f.affectedSlots c ≠ []) ∧ f.Involves c ∧
      (f.last.dependsOn c = true → ∀ factory request g s',
        (f.groupBy factory request).Yields s g s' →
          g.last.dependsOn c = false ∧ g.affectedSlots c = [] ∧ g.Involves c) := by
  refine ⟨fun ungrouped => ?_, h.involves depends, fun kept factory request g s' makes => ?_⟩
  · have kept := h.dependsOn ungrouped depends
    exact ⟨kept, affectedSlots_ne_nil kept⟩
  · obtain ⟨r, rfl, -, shapes⟩ := h.exists_registry
    have dropped := Registry.not_dependsOn_groupBy shapes makes kept
    have last : g.last ∈ g.slots := List.mem_append_right _ List.mem_cons_self
    exact ⟨dropped _ last, affectedSlots_eq_nil_iff.2 dropped,
      (h.step (.groupBy makes)).involves depends⟩

/-- The second pattern of a join shows in the filtered pairs, and no longer in their number. -/
theorem dependencies_kept_join :
    let source : Variable := Sample.numbered "source" 3 (.tuple 2)
    let result : Variable := Sample.numbered "result" 4 .value
    let visible : List Variable := [Sample.v, Sample.w]
    let log : Log :=
      .link (Sample.tested (valueAt 0)) 4 4 (.step 4 (.filter visible fun _ => true))
    let input : Log := .link log 5 5 (.step 5 (.bind source visible wholeTuple))
    let count : Collector := ⟨.count, valueAt 0⟩
    let group : Condition :=
      .group 6 ⟨visible, some source, none, [⟨count, result⟩]⟩ input.oldestFirst
    let f : Expression := ⟨(Sample.pairs (valueAt 0)).front, ⟨Sample.w, log⟩, ⟨visible, log⟩⟩
    let g : Expression := .ofSlot ⟨result, .link .empty 6 1 group⟩
    (∃ s es t, Derivation Sample.others s es false t f ∧
      ∃ s', (f.groupBy ⟨1⟩ ⟨[], [count]⟩).Yields s g s') ∧
      (∃ slot ∈ Sample.others.slots, slot.dependsOn Sample.second = true) ∧
      f.last.dependsOn Sample.second = true ∧ f.affectedSlots Sample.second ≠ [] ∧
      g.affectedSlots Sample.second = [] ∧ g.Involves Sample.second := by
  intro source result visible log input count group f g
  have filters : ((Sample.pairs (valueAt 0)).filter fun _ => true).Yields Sample.afterPairs f
      { Sample.afterPairs with drawn := 4, nextNode := 5 } := rfl
  have start : Derivation Sample.others Sample.afterOthers _ false (.forEach Sample.right)
      Sample.others := .start (Sample.built_facts.forEach Sample.makes_others) (.head _)
  have joined := start.step (.joinRight (.tail _ (.head _)) (Sample.makes_pairs (valueAt 0)))
  have derivation := joined.step (.filter filters)
  have depends : ∃ slot ∈ Sample.others.slots, slot.dependsOn Sample.second = true :=
    ⟨Sample.others.last, List.mem_cons_self, rfl⟩
  obtain ⟨s', groups⟩ : ∃ s', (f.groupBy ⟨1⟩ ⟨[], [count]⟩).Yields
      { Sample.afterPairs with drawn := 4, nextNode := 5 } g s' := ⟨_, rfl⟩
  obtain ⟨kept, -, dropped⟩ := dependencies_kept derivation depends
  obtain ⟨last, affected⟩ := kept rfl
  obtain ⟨-, unaffected, involves⟩ := dropped last _ _ _ _ groups
  exact ⟨⟨_, _, _, derivation, s', groups⟩, depends, last, affected, unaffected, involves⟩

/-- The count of all facts does not depend on the pattern that finds them. -/
theorem dependency_dropped_by_count :
    let source : Variable := Sample.numbered "source" 2 (.tuple 1)
    let result : Variable := Sample.numbered "result" 3 .value
    let count : Collector := ⟨.count, valueAt 0⟩
    let group : Condition := .group 3 ⟨[Sample.v], some source, none, [⟨count, result⟩]⟩
      [Sample.first, .step 2 (.bind source [Sample.v] wholeTuple)]
    let e : Expression := Sample.facts
    let f : Expression := .ofSlot ⟨result, .link .empty 2 1 group⟩
    (∃ s es s', Built s es ∧ (Term.forEach Sample.left, e) ∈ es ∧
      (e.groupBy ⟨1⟩ ⟨[], [count]⟩).Yields s f s') ∧
      (∃ slot ∈ e.slots, slot.dependsOn Sample.first = true) ∧
      f.last.dependsOn Sample.first = false ∧ f.affectedSlots Sample.first = [] := by
  intro source result count group e f
  obtain ⟨s', groups⟩ :
      ∃ s', (e.groupBy ⟨1⟩ ⟨[], [count]⟩).Yields Sample.afterFacts f s' := ⟨_, rfl⟩
  have depends : ∃ slot ∈ e.slots, slot.dependsOn Sample.first = true :=
    ⟨e.last, List.mem_cons_self, rfl⟩
  exact ⟨⟨_, _, s', Sample.built_facts, .head _, groups⟩, depends, rfl, rfl⟩

end Expression

end MatchAlgebra
