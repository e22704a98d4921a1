import MatchAlgebra.Proofs.Registry

/-!
# Expressions stand for terms

An expression is shaped as a term if its log is the term laid out, and stands for it if no variable
is bound twice in the log.  Each operation that succeeds makes an expression that is shaped as what
the operation means, and stands for it if its operands stood for their terms:

    r.Shapes t e  →  (e.filter p).Yields r.supply e' s  →
      r.Makes s (r.Names e.log.oldestFirst) (.filter t p) e'                  (makes_filter)

Shapes do not depend on fresh variables, so they hold even where the numbers of variables start
anew.  The logs of the slots grow from left to right, so their union is the last of them.  The
operands of a join bind and read no variable in common.  Every condition has to do with some
variable, so they have no condition in common either, and their union is one after the other.
-/

namespace MatchAlgebra

/-! ## Slots -/

/-- The logs of the slots grow from `start`; the last of them is `full`. -/
inductive Growing : Log → List Slot → Log → Prop
  | nil (start : Log) : Growing start [] start
  | cons {start full : Log} {slot : Slot} {slots : List Slot} (begins : start.Begins slot.log)
      (rest : Growing slot.log slots full) : Growing start (slot :: slots) full

namespace Growing

variable {start middle full : Log} {slots more : List Slot} {slot : Slot}

theorem begins (h : Growing start slots full) : start.Begins full := by
  induction h with
  | nil => exact .refl
  | cons begins _ ih => exact begins.trans ih

theorem append (h : Growing start slots middle) (h' : Growing middle more full) :
    Growing start (slots ++ more) full := by
  induction h with
  | nil => exact h'
  | cons begins _ ih => exact .cons begins (ih h')

theorem exists_of_append (h : Growing start (slots ++ more) full) :
    ∃ middle, Growing start slots middle ∧ Growing middle more full := by
  induction slots generalizing start with
  | nil => exact ⟨start, .nil start, h⟩
  | cons slot slots ih =>
    cases h with
    | cons begins rest =>
      obtain ⟨middle, hslots, hmore⟩ := ih rest
      exact ⟨middle, .cons begins hslots, hmore⟩

theorem singleton {bound : Variable} (h : start.Begins full) : Growing start [⟨bound, full⟩] full :=
  .cons h (.nil full)

theorem log_eq (h : Growing start (slots ++ [slot]) full) : slot.log = full := by
  obtain ⟨middle, -, hlast⟩ := h.exists_of_append
  cases hlast with
  | cons _ rest =>
    cases rest
    rfl

theorem pairwise (h : Growing start slots full) :
    (start :: slots.map (·.log)).Pairwise Chain.Begins := by
  induction h with
  | nil => exact List.pairwise_singleton _ _
  | @cons start _ slot slots begins _ ih =>
    rw [List.map_cons, List.pairwise_cons]
    refine ⟨fun log hlog => ?_, ih⟩
    rcases List.mem_cons.1 hlog with rfl | hlog
    · exact begins
    · exact begins.trans ((List.pairwise_cons.1 ih).1 log hlog)

/-- A slot does not need to start from the log that it was grown from. -/
theorem rebase (h : Growing start slots full) (hne : slots ≠ []) {earlier : Log}
    (hbegins : earlier.Begins start) : Growing earlier slots full := by
  cases h with
  | nil => exact absurd rfl hne
  | cons begins rest => exact .cons (hbegins.trans begins) rest

/-- Slots that all share one log. -/
theorem constant (h : ∀ slot ∈ slots, slot.log = full) : Growing full slots full := by
  induction slots with
  | nil => exact .nil full
  | cons slot slots ih =>
    obtain ⟨hslot, hslots⟩ := List.forall_mem_cons.1 h
    rw [← hslot] at hslots ih ⊢
    exact .cons .refl (ih hslots)

end Growing

namespace Expression

theorem ofSlots_eq_ok {slots : List Slot} {e : Expression} (h : ofSlots slots = .ok e) :
    e.slots = slots := by
  unfold ofSlots at h
  split at h
  · next last hlast =>
    split at h
    · cases h
      exact List.dropLast_append_getLast? last hlast
    · cases h
  · cases h

/-! ### Contexts -/

/-- The context is in step with the slots. -/
structure InStep (e : Expression) : Prop where
  visible : e.visible = e.slots.map (·.bound)
  log : e.log = e.last.log

section
variable {s s' : Supply} {e e' : Expression}

theorem inStep_ofSlot (slot : Slot) : (ofSlot slot).InStep := ⟨rfl, rfl⟩

/-- The variables of the slots and the conditions of the last. -/
theorem inStep_of_getLast? {slots : List Slot} {last : Slot} (h : slots.getLast? = some last) :
    InStep ⟨slots.dropLast, last, ⟨slots.map (·.bound), last.log⟩⟩ :=
  ⟨(congrArg (List.map Slot.bound) (List.dropLast_append_getLast? last h)).symm, rfl⟩

theorem inStep_ofSlots {slots : List Slot} (h : ofSlots slots = .ok e) : e.InStep := by
  unfold ofSlots at h
  split at h
  · next last hlast =>
    split at h
    · cases h
      exact inStep_of_getLast? hlast
    · cases h
  · cases h

/-- Another log in the last slot, and the same in the context. -/
theorem InStep.relog (h : e.InStep) (log : Log) :
    InStep ⟨e.front, { e.last with log }, { e.context with conditions := log }⟩ := by
  refine ⟨h.visible.trans ?_, rfl⟩
  rw [slots, slots, List.map_append, List.map_append]
  rfl

theorem inStep_forEach {factory : Factory} {type : FactType}
    (makes : (forEach factory type).Yields s e s') : e.InStep := by
  obtain ⟨bound, s₁, -, makes⟩ := Build.bind_yields.1 makes
  obtain ⟨log, s₂, -, makes⟩ := Build.bind_yields.1 makes
  obtain ⟨rfl, -⟩ := Build.pure_yields.1 makes
  exact inStep_ofSlot _

theorem inStep_require {step : Step} (h : e.InStep) (makes : (e.require step).Yields s e' s') :
    e'.InStep := by
  obtain ⟨log, s₁, -, makes⟩ := Build.bind_yields.1 makes
  obtain ⟨rfl, -⟩ := Build.pure_yields.1 makes
  exact h.relog log

theorem inStep_existence {factory : Factory} {quantifier : Quantifier} {type : FactType}
    {joiners : List Joiner} (h : e.InStep)
    (makes : (e.checkExistence factory quantifier type joiners).Yields s e' s') : e'.InStep := by
  obtain ⟨rule, s₁, -, makes⟩ := Build.bind_yields.1 makes
  obtain ⟨candidate, s₂, -, makes⟩ := Build.bind_yields.1 makes
  exact inStep_require h makes

theorem inStep_map {factory : Factory} {function : TupleFunction}
    (makes : (e.map factory function).Yields s e' s') : e'.InStep := by
  obtain ⟨bound, s₁, -, makes⟩ := Build.bind_yields.1 makes
  obtain ⟨combined, s₂, -, makes⟩ := Build.bind_yields.1 makes
  obtain ⟨log, s₃, -, makes⟩ := Build.bind_yields.1 makes
  obtain ⟨rfl, -⟩ := Build.pure_yields.1 makes
  exact inStep_ofSlot _

theorem inStep_join {right : Expression} {joiners : List Joiner}
    (makes : (e.join right joiners).Yields s e' s') : e'.InStep := by
  obtain ⟨rule, s₁, -, makes⟩ := Build.bind_yields.1 makes
  obtain ⟨both, s₂, -, makes⟩ := Build.bind_yields.1 makes
  obtain ⟨log, s₃, -, makes⟩ := Build.bind_yields.1 makes
  exact inStep_ofSlots (Build.check_yields.1 makes).1

end

namespace InStep

variable {e : Expression}

theorem visible_eq (h : e.InStep) : e.visible = e.front.map (·.bound) ++ [e.last.bound] := by
  rw [h.visible, slots, List.map_append]
  rfl

theorem length_visible (h : e.InStep) : e.visible.length = e.degree := by
  rw [h.visible, List.length_map, degree]

/-- An expression of one value. -/
theorem visible_of_degree (h : e.InStep) (single : e.degree = 1) : e.visible = [e.last.bound] := by
  rw [degree, slots, List.length_append] at single
  have front : e.front = [] := List.length_eq_zero_iff.1 (Nat.succ.inj single)
  rw [h.visible_eq, front]
  rfl

end InStep

/-- The last of growing slots has the log of the expression made of them. -/
theorem growing_of_ofSlots {slots : List Slot} {e : Expression} (h : ofSlots slots = .ok e)
    {start full : Log} (growing : Growing start slots full) :
    e.log = full ∧ Growing .empty e.slots e.log := by
  rw [← ofSlots_eq_ok h] at growing
  have log_eq : e.log = full := (inStep_ofSlots h).log.trans growing.log_eq
  have some_slot : e.slots ≠ [] :=
    List.append_ne_nil_of_right_ne_nil _ (List.cons_ne_nil _ _)
  rw [log_eq]
  exact ⟨rfl, growing.rebase some_slot start.empty_begins⟩

end Expression

/-! ## Names -/

/-- The conditions bind variables that have been made, and none of them twice. -/
structure Registry.Names (r : Registry) (cs : List Condition) : Prop where
  used : ∀ v ∈ cs.flatMap Condition.binds, r.supply.Used v.id
  once : Condition.BindOnce cs

namespace Registry.Names

variable {r later : Registry} {cs ds : List Condition}

theorem nil (r : Registry) : r.Names [] :=
  ⟨fun _ hv => absurd hv List.not_mem_nil, .nil⟩

theorem mono (h : r.Names cs) (before : r.Before later) : later.Names cs :=
  ⟨fun v hv => before.used _ (h.used v hv), h.once⟩

theorem append (h : r.Names cs) (h' : r.Names ds)
    (apart : ∀ v ∈ cs.flatMap Condition.binds, ∀ w ∈ ds.flatMap Condition.binds, v.id ≠ w.id) :
    r.Names (cs ++ ds) where
  used := by
    rw [List.flatMap_append]
    exact List.forall_mem_append.2 ⟨h.used, h'.used⟩
  once := Condition.BindOnce.append_iff.2 ⟨h.once, h'.once, apart⟩

/-- Steps that bind new variables. -/
theorem append_steps (h : r.Names cs) (before : r.Before later) {steps : List Step}
    (does : List.Forall₂ Condition.Does ds steps)
    (fresh : Fresh r.supply later.supply (steps.flatMap Step.binds)) : later.Names (cs ++ ds) where
  used := by
    rw [List.flatMap_append, Condition.Does.flatMap_binds does]
    exact List.forall_mem_append.2 ⟨fun v hv => before.used _ (h.used v hv), fresh.used⟩
  once := h.once.append_steps does fresh.nodup fun v hv w hw heq =>
    fresh.unused w hw (heq ▸ h.used v hv)

theorem snoc (h : r.Names cs) (before : r.Before later) {c : Condition} {s : Step}
    (does : c.Does s) (fresh : Fresh r.supply later.supply s.binds) : later.Names (cs ++ [c]) :=
  h.append_steps before does.singleton (by rwa [List.flatMap_singleton])

end Registry.Names

/-! ## Shapes -/

/-- The log of the expression is the term laid out, and the logs of the slots grow up to it. -/
structure Registry.Shapes (r : Registry) (t : Term) (e : Expression) : Prop where
  inStep : e.InStep
  files : r.Files e.log
  growing : Growing .empty e.slots e.log
  layout : Layout t e.log.oldestFirst e.visible

/-- The build makes an expression that is shaped as the term; the names in it are good if those that
it was made of are. -/
abbrev Registry.Makes (r : Registry) (s : Supply) (named : Prop) (t : Term) (e : Expression) :
    Prop :=
  r.Reaches s fun later => later.Shapes t e ∧ (named → later.Names e.log.oldestFirst)

namespace Registry

variable {r later : Registry} {t : Term} {e e' : Expression} {s : Supply}

theorem Shapes.grow (h : r.Shapes t e) (hb : r.Grows later) : later.Shapes t e where
  inStep := h.inStep
  files := h.files.grow hb
  growing := h.growing
  layout := h.layout

/-- The union of the logs of all slots is the log of the expression. -/
theorem Shapes.union_slots {union : Log} (h : r.Shapes t e)
    (hunion : (Log.union (e.slots.map (·.log))).Yields r.supply union s) :
    union = e.log ∧ s = r.supply := by
  have slots : e.slots.map (·.log) = e.front.map (·.log) ++ [e.log] := by
    rw [Expression.slots, List.map_append, h.inStep.log]
    rfl
  have growing := (List.pairwise_cons.1 h.growing.pairwise).2
  rw [slots] at hunion growing
  exact eq_of_union_growing hunion growing h.files.holds

/-! ### Operations on one expression -/

theorem reaches_forEach {factory : Factory} {type : FactType}
    (h : (Expression.forEach factory type).Yields r.supply e s) :
    r.Reaches s fun later => later.Files e.log ∧ Growing .empty e.slots e.log ∧
      ∃ bound c, e.visible = [bound] ∧ bound.type = .fact type ∧ Fresh r.supply s [bound] ∧
        c.Does (.pattern bound type) ∧ e.log.oldestFirst = [c] := by
  obtain ⟨bound, s₁, hcreate, h⟩ := Build.bind_yields.1 h
  obtain ⟨log, s₂, happend, h⟩ := Build.bind_yields.1 h
  obtain ⟨rfl, rfl⟩ := Build.pure_yields.1 h
  obtain ⟨r₁, rfl, before₁, fresh, declared⟩ := reaches_create hcreate
  obtain ⟨r₂, rfl, before₂, files, begins, c, does, conditions⟩ :=
    reaches_appendStep happend (.empty r₁)
  exact ⟨r₂, rfl, before₁.trans before₂, files, .singleton begins, bound, c, rfl, declared,
    fresh.mono (fun _ h => h) before₂.used, does, conditions⟩

theorem makes_forEach {factory : Factory} {type : FactType}
    (h : (Expression.forEach factory type).Yields r.supply e s) :
    r.Makes s True (.forEach type) e := by
  have inStep := Expression.inStep_forEach h
  obtain ⟨later, rfl, before, files, growing, bound, c, visible, declared, fresh, does,
    conditions⟩ := reaches_forEach h
  refine ⟨later, rfl, before, ⟨inStep, files, growing, ?_⟩, fun _ => ?_⟩
  · rw [conditions, visible]
    exact .forEach declared does
  · rw [conditions]
    exact (Names.nil r).snoc before does fresh

/-- An expression with one more condition at its end. -/
theorem reaches_require {step : Step} (h : r.Shapes t e)
    (makes : (e.require step).Yields r.supply e' s) :
    r.Reaches s fun later => later.Files e'.log ∧ Growing .empty e'.slots e'.log ∧
      e'.visible = e.visible ∧
      ∃ c : Condition, c.Does step ∧ e'.log.oldestFirst = e.log.oldestFirst ++ [c] := by
  obtain ⟨log, s₁, happend, makes⟩ := Build.bind_yields.1 makes
  rw [← h.inStep.log] at happend
  obtain ⟨rfl, rfl⟩ := Build.pure_yields.1 makes
  obtain ⟨later, rfl, before, files, begins, c, does, conditions⟩ :=
    reaches_appendStep happend h.files
  refine ⟨later, rfl, before, files, ?_, rfl, c, does, conditions⟩
  obtain ⟨middle, hfront, hlast⟩ := h.growing.exists_of_append
  exact hfront.append (.singleton (hlast.begins.trans begins))

/-- A condition that binds nothing is put at the end. -/
theorem makes_require {step : Step} (h : r.Shapes t e)
    (makes : (e.require step).Yields r.supply e' s) (binds : step.binds = []) {t' : Term}
    (layout : ∀ c : Condition, c.Does step → Layout t' (e.log.oldestFirst ++ [c]) e.visible) :
    r.Makes s (r.Names e.log.oldestFirst) t' e' := by
  have inStep := Expression.inStep_require h.inStep makes
  obtain ⟨later, rfl, before, files, growing, visible, c, does, conditions⟩ :=
    reaches_require h makes
  refine ⟨later, rfl, before, ⟨inStep, files, growing, ?_⟩, fun names => ?_⟩
  · rw [conditions, visible]
    exact layout c does
  · rw [conditions]
    exact names.snoc before does (binds ▸ .nil)

theorem makes_filter {predicate : TuplePredicate} (h : r.Shapes t e)
    (makes : (e.filter predicate).Yields r.supply e' s) :
    r.Makes s (r.Names e.log.oldestFirst) (.filter t predicate) e' :=
  makes_require h makes rfl fun _ hc => .filter h.layout hc

/-- An existence check is one condition more, by the merged joiners. -/
theorem existence_yields {factory : Factory} {quantifier : Quantifier} {type : FactType}
    {joiners : List Joiner}
    (makes : (e.checkExistence factory quantifier type joiners).Yields r.supply e' s) :
    ∃ rule candidate middle, Joiner.merge joiners = .ok rule ∧
      (factory.create "toExist" (.fact type)).Yields r.supply candidate middle ∧
      (e.require (.existence ⟨quantifier, candidate, type, e.visible, rule⟩)).Yields middle e'
        s := by
  obtain ⟨rule, s₁, hrule, makes⟩ := Build.bind_yields.1 makes
  obtain ⟨merged, rfl⟩ := Build.check_yields.1 hrule
  obtain ⟨candidate, s₂, hcreate, makes⟩ := Build.bind_yields.1 makes
  exact ⟨rule, candidate, s₂, merged, hcreate, makes⟩

theorem makes_existence {factory : Factory} {quantifier : Quantifier} {type : FactType}
    {joiners : List Joiner} (h : r.Shapes t e)
    (makes : (e.checkExistence factory quantifier type joiners).Yields r.supply e' s) :
    r.Makes s (r.Names e.log.oldestFirst) (.existence t quantifier type joiners) e' := by
  obtain ⟨rule, candidate, middle, merged, hcreate, makes⟩ := existence_yields makes
  obtain ⟨r₁, rfl, before₁, -⟩ := reaches_create hcreate
  obtain ⟨later, hlater, before, shapes, names⟩ :=
    makes_require (h.grow before₁.toGrows) makes rfl fun _ hc => .existence h.layout merged hc
  exact ⟨later, hlater, before₁.trans before, shapes, fun named => names (named.mono before₁)⟩

/-- A map has the conditions of its operand and then the one that computes its value. -/
theorem reaches_map {factory : Factory} {function : TupleFunction} (h : r.Shapes t e)
    (makes : (e.map factory function).Yields r.supply e' s) :
    r.Reaches s fun later => later.Files e'.log ∧ Growing .empty e'.slots e'.log ∧
      ∃ bound c, e'.visible = [bound] ∧ bound.type = .value ∧ Fresh r.supply s [bound] ∧
        c.Does (.bind bound e.visible function) ∧
        e'.log.oldestFirst = e.log.oldestFirst ++ [c] := by
  obtain ⟨bound, s₁, hcreate, makes⟩ := Build.bind_yields.1 makes
  obtain ⟨combined, s₂, hunion, makes⟩ := Build.bind_yields.1 makes
  obtain ⟨log, s₃, happend, makes⟩ := Build.bind_yields.1 makes
  obtain ⟨rfl, rfl⟩ := Build.pure_yields.1 makes
  obtain ⟨r₁, rfl, before₁, fresh, declared⟩ := reaches_create hcreate
  obtain ⟨rfl, rfl⟩ := (h.grow before₁.toGrows).union_slots hunion
  obtain ⟨r₂, rfl, before₂, files, begins, c, does, conditions⟩ :=
    reaches_appendStep happend (h.files.mono before₁)
  exact ⟨r₂, rfl, before₁.trans before₂, files, .singleton (Chain.empty_begins _), bound, c, rfl,
    declared, fresh.mono (fun _ h => h) before₂.used, does, conditions⟩

theorem makes_map {factory : Factory} {function : TupleFunction} (h : r.Shapes t e)
    (makes : (e.map factory function).Yields r.supply e' s) :
    r.Makes s (r.Names e.log.oldestFirst) (.map t function) e' := by
  have inStep := Expression.inStep_map makes
  obtain ⟨later, rfl, before, files, growing, bound, c, visible, declared, fresh, does,
    conditions⟩ := reaches_map h makes
  refine ⟨later, rfl, before, ⟨inStep, files, growing, ?_⟩, fun names => ?_⟩
  · rw [conditions, visible]
    exact .map h.layout declared does
  · rw [conditions]
    exact names.snoc before does fresh

/-! ### Joins -/

theorem joinable_eq_ok {left right : Expression} {joiners : List Joiner} {rule : JoinRule} :
    left.joinable right joiners = .ok rule ↔ left.degree < maxDegree ∧ right.degree = 1 ∧
      left.sharedVariable? right = none ∧ Joiner.merge joiners = .ok rule := by
  unfold Expression.joinable
  split
  · next full =>
    refine ⟨(fun h => by cases h), fun h => absurd h.1 (Nat.not_lt.2 full)⟩
  · next room =>
    split
    · next degree => exact ⟨(fun h => by cases h), fun h => absurd h.2.1 degree⟩
    · next degree =>
      split
      · next shared => exact ⟨(fun h => by cases h), fun h => by cases shared.symm.trans h.2.2.1⟩
      · next shared =>
        exact ⟨fun h => ⟨Nat.not_le.1 room, not_not.1 degree, shared, h⟩, fun h => h.2.2.2⟩

/-- Without a shared variable the sides bind different variables. -/
theorem id_ne_of_sharedVariable {left right : Expression} (hl : left.InStep) (hr : right.InStep)
    (h : left.sharedVariable? right = none) {v w : Variable}
    (hv : v ∈ left.visible ++ left.log.oldestFirst.flatMap Condition.binds)
    (hw : w ∈ right.log.oldestFirst.flatMap Condition.binds) : v.id ≠ w.id := by
  have newest : ∀ (log : Log) (v : Variable), v ∈ log.oldestFirst.flatMap Condition.binds →
      v ∈ log.newestFirst.flatMap Condition.binds := by
    intro log v hv
    obtain ⟨c, hc, hv⟩ := List.mem_flatMap.1 hv
    exact List.mem_flatMap.2 ⟨c, Chain.mem_oldestFirst.1 hc, hv⟩
  rw [hl.log] at hv
  rw [hr.log] at hw
  intro heq
  refine List.find?_eq_none.1 h w (List.mem_cons_of_mem _ (newest _ w hw)) ?_
  refine List.contains_iff_exists_mem_beq.2 ⟨v, ?_, decide_eq_true heq.symm⟩
  exact List.mem_append.2 ((List.mem_append.1 hv).imp_right (newest _ v))

/-- The log of an expression is not empty. -/
theorem Shapes.newestFirst_ne_nil (h : r.Shapes t e) : e.log.newestFirst ≠ [] := by
  intro hnil
  obtain ⟨v, hv⟩ := List.exists_mem_of_ne_nil _ h.layout.visible_ne_nil
  obtain ⟨c, hc, -⟩ := List.mem_flatMap.1 (h.layout.visible_bound v hv)
  rw [Chain.mem_oldestFirst, hnil] at hc
  cases hc

/-- Without a shared variable the sides have no condition in common. -/
theorem apart_of_sharedVariable {left right : Term} {l o : Expression} (hl : r.Shapes left l)
    (ho : r.Shapes right o) (shared : l.sharedVariable? o = none) :
    ∀ c ∈ l.log.newestFirst, c ∉ o.log.newestFirst := by
  intro c hc hc'
  have hold := Chain.mem_oldestFirst.2 hc
  have hold' := Chain.mem_oldestFirst.2 hc'
  rcases hl.layout.binds_or_reads c hold with hne | hne
  · obtain ⟨v, hv⟩ := List.exists_mem_of_ne_nil _ hne
    exact id_ne_of_sharedVariable hl.inStep ho.inStep shared
      (List.mem_append_right _ (List.mem_flatMap.2 ⟨c, hold, hv⟩))
      (List.mem_flatMap.2 ⟨c, hold', hv⟩) rfl
  · obtain ⟨v, hv⟩ := List.exists_mem_of_ne_nil _ hne
    exact id_ne_of_sharedVariable hl.inStep ho.inStep shared
      (List.mem_append_right _ (hl.layout.isScoped.order.closed c hold v hv))
      (ho.layout.isScoped.order.closed c hold' v hv) rfl

/-- A join has the conditions of both sides one after the other, and then its tests. -/
theorem reaches_join {left right : Term} {l o : Expression} {joiners : List Joiner}
    (hl : r.Shapes left l) (ho : r.Shapes right o)
    (makes : (l.join o joiners).Yields r.supply e' s) :
    r.Reaches s fun later => later.Files e'.log ∧ Growing .empty e'.slots e'.log ∧
      e'.visible = l.visible ++ [o.last.bound] ∧
      ∃ rule tests, l.joinable o joiners = .ok rule ∧
        e'.log.oldestFirst = l.log.oldestFirst ++ o.log.oldestFirst ++ tests ∧
        List.Forall₂ Condition.Does tests
          (Expression.joinSteps l.visible o.last.bound rule) := by
  obtain ⟨rule, s₁, hrule, makes⟩ := Build.bind_yields.1 makes
  obtain ⟨joinable, rfl⟩ := Build.check_yields.1 hrule
  obtain ⟨-, degree, shared, merged⟩ := joinable_eq_ok.1 joinable
  obtain ⟨both, s₂, hunion, makes⟩ := Build.bind_yields.1 makes
  obtain ⟨log, s₃, happend, makes⟩ := Build.bind_yields.1 makes
  obtain ⟨hslots, rfl⟩ := Build.check_yields.1 makes
  rw [← hl.inStep.log, ← ho.inStep.log] at hunion
  obtain ⟨r₁, rfl, before₁, files₁, begins₁, conditions₁⟩ := reaches_union_apart hunion hl.files
    ho.files hl.newestFirst_ne_nil ho.newestFirst_ne_nil (apart_of_sharedVariable hl ho shared)
  obtain ⟨r₂, rfl, before₂, files₂, begins₂, cs, conditions₂, does⟩ :=
    reaches_appendSteps happend files₁
  obtain ⟨log_eq, growing⟩ := Expression.growing_of_ofSlots hslots
    (hl.growing.append (.singleton (begins₁.trans begins₂)))
  refine ⟨r₂, rfl, before₁.trans before₂, ?_, growing, ?_, rule, cs, joinable, ?_, does⟩
  · rwa [log_eq]
  · rw [(Expression.inStep_ofSlots hslots).visible, hl.inStep.visible,
      Expression.ofSlots_eq_ok hslots, List.map_append]
    rfl
  · rw [log_eq, conditions₂, conditions₁]

theorem makes_join {left right : Term} {l o : Expression} {joiners : List Joiner}
    (hl : r.Shapes left l) (ho : r.Shapes right o)
    (makes : (l.join o joiners).Yields r.supply e' s) :
    r.Makes s (r.Names l.log.oldestFirst ∧ r.Names o.log.oldestFirst) (.join left right joiners)
      e' := by
  have inStep := Expression.inStep_join makes
  obtain ⟨later, rfl, before, files, growing, visible, rule, tests, joinable, conditions, does⟩ :=
    reaches_join hl ho makes
  obtain ⟨room, degree, shared, merged⟩ := joinable_eq_ok.1 joinable
  have right_layout := ho.layout
  rw [ho.inStep.visible_of_degree degree] at right_layout
  refine ⟨later, rfl, before, ⟨inStep, files, growing, ?_⟩, fun ⟨left_names, right_names⟩ => ?_⟩
  · rw [conditions, visible]
    refine .join hl.layout right_layout ?_ merged does
    rwa [hl.inStep.length_visible]
  · have no_binds : (Expression.joinSteps l.visible o.last.bound rule).flatMap Step.binds = [] :=
      List.flatMap_eq_nil_iff.2 fun s hs => (binds_joinSteps hs).1
    rw [conditions]
    refine (left_names.append right_names fun v hv w hw => ?_).append_steps before does
      (no_binds ▸ .nil)
    exact id_ne_of_sharedVariable hl.inStep ho.inStep shared (List.mem_append_right _ hv) hw

/-! ## Standing for a term -/

/-- The expression is shaped as the term, and its names are good. -/
structure Stands (r : Registry) (t : Term) (e : Expression) : Prop where
  inStep : e.InStep
  files : r.Files e.log
  growing : Growing .empty e.slots e.log
  used : ∀ v ∈ e.log.oldestFirst.flatMap Condition.binds, r.supply.Used v.id
  flat : Flat t e.log.oldestFirst e.visible

namespace Stands

theorem of_shapes (h : r.Shapes t e) (names : r.Names e.log.oldestFirst) : r.Stands t e :=
  ⟨h.inStep, h.files, h.growing, names.used, h.layout, names.once⟩

theorem shapes (h : r.Stands t e) : r.Shapes t e :=
  ⟨h.inStep, h.files, h.growing, h.flat.layout⟩

theorem names (h : r.Stands t e) : r.Names e.log.oldestFirst := ⟨h.used, h.flat.once⟩

theorem mono (h : r.Stands t e) (hb : r.Before later) : later.Stands t e :=
  of_shapes (h.shapes.grow hb.toGrows) (h.names.mono hb)

/-- What is made of expressions that stand for terms stands for a term. -/
theorem of_makes {named : Prop} (h : r.Makes s named t e) (hnamed : named) :
    r.Reaches s fun later => later.Stands t e := by
  obtain ⟨later, hlater, before, shapes, names⟩ := h
  exact ⟨later, hlater, before, of_shapes shapes (names hnamed)⟩

end Stands

end Registry

end MatchAlgebra
