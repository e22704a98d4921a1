import MatchAlgebra.Algebra.Grouping
import MatchAlgebra.Proofs.Building
import MatchAlgebra.Proofs.Lockstep

/-!
# Groupings stand for groups

A grouping starts a log of its own.  The conditions of its operand become the input of a condition,
with the source that the collectors read at their end; the results get variables of their own, and
so do the components of a key if there are several (`makes_groupBy`).  All of these variables are
made one after the other, so they are different.
-/

namespace MatchAlgebra

namespace Expression

/-- The log that groups are made from, with the source if there are collectors. -/
def sourceLog (factory : Factory) (collectors : List Collector) (inputs : List Variable)
    (log : Log) : Build (Option Variable × Log) :=
  if collectors.isEmpty then pure (none, log)
  else do
    let (source, input) ← bindSource factory inputs log
    pure (some source, input)

theorem groupBy_eq (e : Expression) (factory : Factory) (request : GroupRequest) :
    e.groupBy factory request = (do
      check request.validate
      let combined ← Log.union (e.slots.map (·.log))
      let (source, input) ← sourceLog factory request.collectors e.visible combined
      let key ← groupKey factory request.keys
      let outputs ← collectorOutputs factory request.collectors
      let group ← newGroup ⟨e.visible, source, key, outputs⟩ input.oldestFirst
      let log ← Log.append .empty group
      let (log, keySlots) ← keySlots factory log key request.keys.length
      check (ofSlots (keySlots ++ outputs.map fun output => ⟨output.bound, log⟩))) := by
  unfold groupBy sourceLog
  cases request.collectors.isEmpty with
  | true => simp only [if_true, pure_bind]
  | false => simp only [Bool.false_eq_true, if_false, bind_assoc, pure_bind]

/-- The slots that a grouping is made of. -/
def groupSlots (e : Expression) (factory : Factory) (request : GroupRequest) :
    Build (List Slot) := do
  check request.validate
  let combined ← Log.union (e.slots.map (·.log))
  let (source, input) ← sourceLog factory request.collectors e.visible combined
  let key ← groupKey factory request.keys
  let outputs ← collectorOutputs factory request.collectors
  let group ← newGroup ⟨e.visible, source, key, outputs⟩ input.oldestFirst
  let log ← Log.append .empty group
  let (log, keySlots) ← keySlots factory log key request.keys.length
  return keySlots ++ outputs.map fun output => ⟨output.bound, log⟩

theorem groupBy_eq_groupSlots (e : Expression) (factory : Factory) (request : GroupRequest) :
    e.groupBy factory request = (do
      let slots ← e.groupSlots factory request
      check (ofSlots slots)) := by
  simp only [groupBy_eq, groupSlots, bind_assoc, pure_bind]

/-- What a grouping makes is in step with its slots, whatever it groups. -/
theorem inStep_groupBy {s s' : Supply} {e e' : Expression} {factory : Factory}
    {request : GroupRequest}
    (makes : (e.groupBy factory request).Yields s e' s') : e'.InStep := by
  rw [groupBy_eq_groupSlots] at makes
  obtain ⟨_, _, -, makes⟩ := Build.bind_yields.1 makes
  exact inStep_ofSlots (Build.check_yields.1 makes).1

end Expression

namespace Registry

variable {r : Registry} {t : Term} {e e' : Expression} {s : Supply} {factory : Factory}

/-! ## The condition -/

theorem partsAll_log_subset {log : Log} (h : r.Files log) :
    ∀ d ∈ Condition.partsAll log.oldestFirst, d ∈ r.conditions :=
  partsAll_subset fun c hc => h.conditions c (Chain.mem_oldestFirst.1 hc)

theorem reaches_sourceLog {collectors : List Collector} {inputs : List Variable} {log input : Log}
    {source : Option Variable}
    (h : (Expression.sourceLog factory collectors inputs log).Yields r.supply (source, input) s)
    (hlog : r.Files log) :
    r.Reaches s fun later => later.Files input ∧
      SourceLayout inputs log.oldestFirst collectors source input.oldestFirst ∧
      (r.Names log.oldestFirst → later.Names input.oldestFirst) := by
  cases collectors with
  | nil =>
    obtain ⟨heq, rfl⟩ := Build.pure_yields.1 h
    cases heq
    exact ⟨r, rfl, .refl r, hlog, .none, id⟩
  | cons collector collectors =>
    obtain ⟨⟨bound, grown⟩, s₁, h, hpair⟩ := Build.bind_yields.1 h
    obtain ⟨heq, rfl⟩ := Build.pure_yields.1 hpair
    cases heq
    obtain ⟨source, s₁, hcreate, h⟩ := Build.bind_yields.1 h
    obtain ⟨grown, s₂, happend, h⟩ := Build.bind_yields.1 h
    obtain ⟨heq, rfl⟩ := Build.pure_yields.1 h
    cases heq
    obtain ⟨r₁, rfl, before₁, fresh, declared⟩ := reaches_create hcreate
    obtain ⟨r₂, rfl, before₂, files, -, c, does, conditions⟩ :=
      reaches_appendStep happend (hlog.mono before₁)
    refine ⟨r₂, rfl, before₁.trans before₂, files, ?_, fun names => ?_⟩
    · rw [conditions]
      exact .some declared does
    · rw [conditions]
      exact names.snoc (before₁.trans before₂) does (fresh.mono (fun _ h => h) before₂.used)

/-! ## Keys and results -/

/-- What is declared of the key of a grouping: a tuple if it packs several keys. -/
def KeyDeclared (keys : List TupleFunction) (key : Option GroupKey) : Prop :=
  ∀ k ∈ key, k.bound.type = if keys.length = 1 then .value else .tuple keys.length

theorem reaches_groupKey {keys : List TupleFunction} {key : Option GroupKey}
    (h : (Expression.groupKey factory keys).Yields r.supply key s) :
    r.Reaches s fun _ => Fresh r.supply s (key.map (·.bound)).toList ∧
      key.map (·.function) = (if keys.isEmpty then none else some (packedKey keys)) ∧
      KeyDeclared keys key := by
  match keys with
  | [] =>
    obtain ⟨rfl, rfl⟩ := Build.pure_yields.1 h
    exact ⟨r, rfl, .refl r, .nil, rfl, fun k hk => by cases hk⟩
  | [function] =>
    obtain ⟨bound, s₁, hcreate, h⟩ := Build.bind_yields.1 h
    obtain ⟨rfl, rfl⟩ := Build.pure_yields.1 h
    obtain ⟨later, hlater, before, fresh, declared⟩ := reaches_create hcreate
    refine ⟨later, hlater, before, fresh, rfl, fun k hk => ?_⟩
    cases hk
    exact declared
  | _ :: _ :: others =>
    obtain ⟨bound, s₁, hcreate, h⟩ := Build.bind_yields.1 h
    obtain ⟨rfl, rfl⟩ := Build.pure_yields.1 h
    obtain ⟨later, hlater, before, fresh, declared⟩ := reaches_create hcreate
    refine ⟨later, hlater, before, fresh, rfl, fun k hk => ?_⟩
    cases hk
    exact declared.trans (if_neg (Nat.succ_ne_zero others.length ∘ Nat.succ.inj)).symm

theorem reaches_collectorOutputs {collectors : List Collector} {outputs : List CollectorOutput}
    (h : (Expression.collectorOutputs factory collectors).Yields r.supply outputs s) :
    r.Reaches s fun _ => Fresh r.supply s (outputs.map (·.bound)) ∧
      outputs.map (·.collector) = collectors ∧
      ∀ output ∈ outputs, output.bound.type = .value := by
  unfold Expression.collectorOutputs at h
  induction collectors generalizing r outputs with
  | nil =>
    obtain ⟨rfl, rfl⟩ := Build.pure_yields.1 h
    exact ⟨r, rfl, .refl r, .nil, rfl, fun output houtput => absurd houtput List.not_mem_nil⟩
  | cons collector collectors ih =>
    rw [List.mapM_cons] at h
    obtain ⟨output, s₁, hfirst, h⟩ := Build.bind_yields.1 h
    obtain ⟨rest, s₂, hrest, h⟩ := Build.bind_yields.1 h
    obtain ⟨rfl, rfl⟩ := Build.pure_yields.1 h
    obtain ⟨bound, s₃, hcreate, hfirst⟩ := Build.bind_yields.1 hfirst
    obtain ⟨rfl, rfl⟩ := Build.pure_yields.1 hfirst
    obtain ⟨r₁, rfl, before₁, fresh₁, declared₁⟩ := reaches_create hcreate
    obtain ⟨r₂, rfl, before₂, fresh₂, measures, declared₂⟩ := ih hrest
    refine ⟨r₂, rfl, before₁.trans before₂, ?_, congrArg (collector :: ·) measures,
      List.forall_mem_cons.2 ⟨declared₁, declared₂⟩⟩
    exact fresh₁.append fresh₂ before₁.used before₂.used

/-! ## Components -/

/-- New variables with the conditions that bind them to the components from `n` on. -/
theorem reaches_components {composite : Variable} {n count : Nat}
    {pairs : List (Variable × Condition)}
    (h : Build.Yields ((List.range' n count).mapM fun index => do
      let bound ← factory.create "groupKey" .value
      let c ← newStep (.bind bound [composite] (keyComponent index))
      return (bound, c)) r.supply pairs s) :
    r.Reaches s fun later => Fresh r.supply s (pairs.map (·.1)) ∧ pairs.length = count ∧
      (∀ v ∈ pairs.map (·.1), v.type = .value) ∧
      (∀ c ∈ pairs.map (·.2), c ∈ later.conditions ∧ ∀ d ∈ r.conditions, d.id ≠ c.id) ∧
      (pairs.map (·.2)).Pairwise (fun c d => c.id ≠ d.id) ∧
      List.Forall₂ Condition.Does (pairs.map (·.2))
        (((pairs.map (·.1)).zipIdx n).map fun (v, index) =>
          .bind v [composite] (keyComponent index)) := by
  induction count generalizing n r pairs with
  | zero =>
    obtain ⟨rfl, rfl⟩ := Build.pure_yields.1 h
    exact ⟨r, rfl, .refl r, .nil, rfl, fun v hv => absurd hv List.not_mem_nil,
      fun c hc => absurd hc List.not_mem_nil, .nil, .nil⟩
  | succ count ih =>
    rw [List.range'_succ, List.mapM_cons] at h
    obtain ⟨pair, s₁, hfirst, h⟩ := Build.bind_yields.1 h
    obtain ⟨rest, s₂, hrest, h⟩ := Build.bind_yields.1 h
    obtain ⟨rfl, rfl⟩ := Build.pure_yields.1 h
    obtain ⟨bound, s₃, hcreate, hfirst⟩ := Build.bind_yields.1 hfirst
    obtain ⟨c, s₄, hmake, hfirst⟩ := Build.bind_yields.1 hfirst
    obtain ⟨rfl, rfl⟩ := Build.pure_yields.1 hfirst
    obtain ⟨r₁, rfl, before₁, fresh₁, declared₁⟩ := reaches_create hcreate
    obtain ⟨r₂, rfl, before₂, hc, does, hnew⟩ := reaches_newStep hmake
    obtain ⟨r₃, rfl, before₃, fresh₃, length, declared₃, made, distinct, all_does⟩ := ih hrest
    have before := before₁.trans (before₂.trans before₃)
    refine ⟨r₃, rfl, before, ?_, congrArg (· + 1) length,
      List.forall_mem_cons.2 ⟨declared₁, declared₃⟩, fun d hd => ?_, ?_, .cons does all_does⟩
    · exact (fresh₁.mono (fun _ h => h) before₂.used).append fresh₃ (before₁.trans before₂).used
        before₃.used
    · rcases List.mem_cons.1 hd with rfl | hd
      · exact ⟨before₃.conditions hc, fun d hd => hnew d (before₁.conditions hd)⟩
      · obtain ⟨hlater, hne⟩ := made d hd
        exact ⟨hlater, fun d' hd' => hne d' ((before₁.trans before₂).conditions hd')⟩
    · rw [List.map_cons, List.pairwise_cons]
      exact ⟨fun d hd => (made d hd).2 c hc, distinct⟩

theorem reaches_componentSlots {log full : Log} {slots : List Slot}
    {pairs : List (Variable × Condition)}
    (h : (Expression.componentSlots log pairs).Yields r.supply (full, slots) s)
    (hlog : r.Files log) (hmem : ∀ c ∈ pairs.map (·.2), c ∈ r.conditions)
    (hdistinct : (log.oldestFirst ++ pairs.map (·.2)).Pairwise fun c d => c.id ≠ d.id) :
    r.Reaches s fun later => later.Files full ∧
      Growing log slots full ∧ full.oldestFirst = log.oldestFirst ++ pairs.map (·.2) ∧
      slots.map (·.bound) = pairs.map (·.1) := by
  induction pairs generalizing r log slots with
  | nil =>
    obtain ⟨heq, rfl⟩ := Build.pure_yields.1 h
    cases heq
    exact ⟨r, rfl, .refl r, hlog, .nil _, (List.append_nil _).symm, rfl⟩
  | cons pair pairs ih =>
    obtain ⟨bound, c⟩ := pair
    obtain ⟨grown, s₁, happend, h⟩ := Build.bind_yields.1 h
    obtain ⟨⟨last, rest⟩, s₂, hrest, h⟩ := Build.bind_yields.1 h
    obtain ⟨heq, rfl⟩ := Build.pure_yields.1 h
    cases heq
    obtain ⟨hc, hmem⟩ := List.forall_mem_cons.1 hmem
    obtain ⟨r₁, rfl, before₁, files₁, begins₁, conditions₁⟩ := reaches_append happend hlog hc
      fun d hd => (List.pairwise_append.1 hdistinct).2.2 d (Chain.mem_oldestFirst.2 hd) c
        List.mem_cons_self
    rw [List.map_cons, ← List.singleton_append, ← List.append_assoc, ← conditions₁] at hdistinct
    obtain ⟨r₂, rfl, before₂, files₂, growing, conditions₂, bounds⟩ := ih hrest files₁
      (fun d hd => before₁.conditions (hmem d hd)) hdistinct
    refine ⟨r₂, rfl, before₁.trans before₂, files₂, .cons begins₁ growing, ?_,
      congrArg (bound :: ·) bounds⟩
    rw [conditions₂, conditions₁, List.append_assoc]
    rfl

/-! ## Groupings -/

/-- The slots of the keys: they hold the only key, or the components of the packed one. -/
theorem reaches_keySlots {keys : List TupleFunction} {key : Option GroupKey} {log full : Log}
    {slots : List Slot}
    (h : (Expression.keySlots factory log key keys.length).Yields r.supply (full, slots) s)
    (hkey : key.map (·.function) = if keys.isEmpty then none else some (packedKey keys))
    (declared : KeyDeclared keys key) (hlog : r.Files log) :
    r.Reaches s fun later => later.Files full ∧ Growing log slots full ∧
      ∃ cs, full.oldestFirst = log.oldestFirst ++ cs ∧
        (∀ c ∈ cs, ∀ d ∈ r.conditions, d.id ≠ c.id) ∧
        KeyLayout keys key (slots.map (·.bound)) cs ∧
        (r.Names log.oldestFirst → later.Names full.oldestFirst) := by
  match keys with
  | [] =>
    rw [List.isEmpty_nil, if_pos rfl, Option.map_eq_none_iff] at hkey
    subst hkey
    obtain ⟨heq, rfl⟩ := Build.pure_yields.1 h
    cases heq
    exact ⟨r, rfl, .refl r, hlog, .nil _, [], (List.append_nil _).symm,
      fun c hc => absurd hc List.not_mem_nil, .none, id⟩
  | [function] =>
    obtain ⟨⟨bound, function⟩, rfl, rfl⟩ := Option.map_eq_some_iff.1 hkey
    obtain ⟨heq, rfl⟩ := Build.pure_yields.1 h
    cases heq
    exact ⟨r, rfl, .refl r, hlog, .singleton .refl, [], (List.append_nil _).symm,
      fun c hc => absurd hc List.not_mem_nil, .one function (declared _ rfl), id⟩
  | first :: second :: others =>
    obtain ⟨⟨bound, function⟩, rfl, rfl⟩ := Option.map_eq_some_iff.1 hkey
    obtain ⟨pairs, s₁, hmake, h⟩ := Build.bind_yields.1 h
    rw [bindComponents, List.range_eq_range'] at hmake
    obtain ⟨r₁, rfl, before₁, fresh, length, components_declared, made, distinct, does⟩ :=
      reaches_components hmake
    have apart : (log.oldestFirst ++ pairs.map (·.2)).Pairwise fun c d => c.id ≠ d.id :=
      List.pairwise_append.2 ⟨hlog.distinct, distinct, fun c hc d hd =>
        (made d hd).2 c (hlog.conditions c (Chain.mem_oldestFirst.1 hc))⟩
    obtain ⟨r₂, rfl, before₂, files, growing, conditions, bounds⟩ := reaches_componentSlots h
      (hlog.mono before₁) (fun c hc => (made c hc).1) apart
    have before := before₁.trans before₂
    refine ⟨r₂, rfl, before, files, growing, pairs.map (·.2), conditions,
      fun c hc => (made c hc).2, ?_, fun names => ?_⟩
    · rw [bounds]
      refine .packed (Nat.one_lt_succ_succ _) ?_ ?_ components_declared does
      · rw [List.length_map, length]
      · exact (declared _ rfl).trans (if_neg (Nat.succ_ne_zero others.length ∘ Nat.succ.inj))
    · rw [conditions]
      refine names.append_steps before does ?_
      rw [← componentSteps, flatMap_binds_componentSteps]
      exact fresh.mono (fun _ h => h) before₂.used

/-- A grouping has one condition, whose input is made of those of its operand, and then those that
take the components out of its key.  All of them are new. -/
theorem reaches_groupBy {request : GroupRequest} (h : r.Shapes t e)
    (makes : (e.groupBy factory request).Yields r.supply e' s) :
    r.Reaches s fun later => later.Files e'.log ∧ Growing .empty e'.slots e'.log ∧
      (r.Names e.log.oldestFirst → later.Names e'.log.oldestFirst) ∧
      (∀ c ∈ e'.log.oldestFirst, ∀ d ∈ r.conditions, d.id ≠ c.id) ∧
      ∃ id source key outputs input keys components, request.validate = .ok () ∧
        SourceLayout e.visible e.log.oldestFirst request.collectors source input ∧
        KeyLayout request.keys key keys components ∧
        outputs.map (·.collector) = request.collectors ∧
        (∀ output ∈ outputs, output.bound.type = .value) ∧
        e'.visible = keys ++ outputs.map (·.bound) ∧
        e'.log.oldestFirst = .group id ⟨e.visible, source, key, outputs⟩ input :: components := by
  rw [Expression.groupBy_eq] at makes
  obtain ⟨_, s₁, hvalid, makes⟩ := Build.bind_yields.1 makes
  obtain ⟨valid, rfl⟩ := Build.check_yields.1 hvalid
  obtain ⟨combined, s₂, hunion, makes⟩ := Build.bind_yields.1 makes
  obtain ⟨rfl, rfl⟩ := h.union_slots hunion
  obtain ⟨⟨source, input⟩, s₃, hsource, makes⟩ := Build.bind_yields.1 makes
  obtain ⟨key, s₄, hgroupKey, makes⟩ := Build.bind_yields.1 makes
  obtain ⟨outputs, s₅, houtputs, makes⟩ := Build.bind_yields.1 makes
  obtain ⟨c, s₆, hgroup, makes⟩ := Build.bind_yields.1 makes
  obtain ⟨log, s₇, happend, makes⟩ := Build.bind_yields.1 makes
  obtain ⟨⟨full, slots⟩, s₈, hkeySlots, makes⟩ := Build.bind_yields.1 makes
  obtain ⟨hslots, rfl⟩ := Build.check_yields.1 makes
  obtain ⟨r₁, rfl, before₁, files_input, sources, names_input⟩ := reaches_sourceLog hsource h.files
  obtain ⟨r₂, rfl, before₂, fresh_key, key_function, key_declared⟩ := reaches_groupKey hgroupKey
  obtain ⟨r₃, rfl, before₃, fresh_outputs, measures, outputs_declared⟩ :=
    reaches_collectorOutputs houtputs
  obtain ⟨r₄, rfl, before₄, hc, new_group, id, rfl⟩ :=
    reaches_newGroup hgroup fun d hd =>
      (files_input.mono (before₂.trans before₃)).conditions d (Chain.mem_oldestFirst.1 hd)
  obtain ⟨r₅, rfl, before₅, files_log, -, conditions_log⟩ :=
    reaches_append happend (.empty r₄) hc fun d hd => absurd hd List.not_mem_nil
  have earlier := before₁.trans (before₂.trans before₃)
  have later := before₃.trans (before₄.trans before₅)
  obtain ⟨r₆, rfl, before₆, files, growing, components, conditions, new_components, packs,
    names_components⟩ := reaches_keySlots hkeySlots key_function key_declared files_log
  rw [show Chain.oldestFirst (.empty : Log) = [] from rfl, List.nil_append] at conditions_log
  rw [conditions_log] at conditions names_components
  have results : Growing full (outputs.map fun output => ⟨output.bound, full⟩) full := by
    refine .constant fun slot hslot => ?_
    obtain ⟨output, -, rfl⟩ := List.mem_map.1 hslot
    rfl
  obtain ⟨log_eq, growing_all⟩ := Expression.growing_of_ofSlots hslots (growing.append results)
  have visible : e'.visible = slots.map (·.bound) ++ outputs.map (·.bound) := by
    rw [(Expression.inStep_ofSlots hslots).visible, Expression.ofSlots_eq_ok hslots,
      List.map_append, List.map_map]
    rfl
  refine ⟨r₆, rfl, before₁.trans (before₂.trans (later.trans before₆)), ?_, growing_all,
    fun names => ?_, fun c hc d hd => ?_, id, source, key, outputs, input.oldestFirst, _,
    components, valid, sources, packs, measures, outputs_declared, visible, ?_⟩
  · rwa [log_eq]
  · rw [log_eq]
    refine names_components ?_
    -- the grouping binds its key and its results, which were made one after the other
    have fresh := fresh_key.append fresh_outputs before₂.used before₃.used
    have inside := (names_input names).once
    refine ⟨fun v hv => (before₄.trans before₅).used _ (fresh.used v ?_),
      Condition.BindOnce.group_iff.2 ⟨fresh.nodup, inside⟩⟩
    rwa [List.flatMap_singleton] at hv
  · rw [log_eq, conditions, List.singleton_append] at hc
    rcases List.mem_cons.1 hc with rfl | hc
    · exact new_group d (earlier.conditions hd)
    · exact new_components c hc d (before₅.conditions (before₄.conditions (earlier.conditions hd)))
  · rw [log_eq, conditions]
    rfl

theorem makes_groupBy {request : GroupRequest} (h : r.Shapes t e)
    (makes : (e.groupBy factory request).Yields r.supply e' s) :
    r.Makes s (r.Names e.log.oldestFirst) (.groupBy t request) e' := by
  obtain ⟨later, hlater, before, files, growing, names, -, id, source, key, outputs, input, keys,
    components, valid, sources, packs, measures, declared, visible, conditions⟩ :=
    reaches_groupBy h makes
  refine ⟨later, hlater, before, ⟨Expression.inStep_groupBy makes, files, growing, ?_⟩, names⟩
  rw [conditions, visible]
  exact .groupBy id h.layout valid sources packs measures declared

end Registry

end MatchAlgebra
