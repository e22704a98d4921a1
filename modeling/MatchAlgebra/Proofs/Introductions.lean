import MatchAlgebra.Proofs.Creations

/-!
# Variables that calls introduce

A call of the algebra makes its variables one after the other, like anyone else who asks the factory
for them: one for a new pattern, a candidate or a mapped value, and for a grouping the source, the
key, the results and the components of a packed key.  The expression that it builds mentions all of
them, and besides only what its operands mention:

    (c.build factory es).Yields s e s'  →
      ∃ made, factory.Adds s made s' ∧ e.Introduces (c.known es) c.bases made       (adds_build)
-/

namespace MatchAlgebra

/-! ## Groupings -/

theorem Build.exists_of_mem_mapM {α β : Type} {f : α → Build β} {as : List α} {bs : List β}
    {s s' : Supply} (h : Yields (as.mapM f) s bs s') {b : β} (hb : b ∈ bs) :
    ∃ a s₁ s₂, (f a).Yields s₁ b s₂ := by
  induction as generalizing s bs with
  | nil =>
    obtain ⟨rfl, -⟩ := pure_yields.1 h
    cases hb
  | cons a as ih =>
    obtain ⟨first, s₁, rest, rfl, hfirst, hrest⟩ := exists_of_mapM_cons h
    rcases List.mem_cons.1 hb with rfl | hb
    · exact ⟨a, s, s₁, hfirst⟩
    · exact ih hrest hb

namespace Expression

variable {factory : Factory} {s s' : Supply}

/-- The source is bound to what the input has in its slots. -/
theorem adds_sourceLog {collectors : List Collector} {inputs : List Variable} {log input : Log}
    {source : Option Variable}
    (h : (sourceLog factory collectors inputs log).Yields s (source, input) s') :
    factory.Adds s (source.toList.map fun v => ("source", v)) s' ∧
      (source = none ↔ collectors = []) ∧
      input.mentioned = log.mentioned ++ source.toList.flatMap fun v => v :: inputs := by
  cases collectors with
  | nil =>
    obtain ⟨heq, rfl⟩ := Build.pure_yields.1 h
    cases heq
    exact ⟨.refl, iff_of_true rfl rfl, (List.append_nil _).symm⟩
  | cons collector collectors =>
    obtain ⟨⟨bound, grown⟩, s₁, h, hpair⟩ := Build.bind_yields.1 h
    obtain ⟨heq, rfl⟩ := Build.pure_yields.1 hpair
    cases heq
    obtain ⟨source, s₁, hcreate, h⟩ := Build.bind_yields.1 h
    obtain ⟨grown, s₂, happend, h⟩ := Build.bind_yields.1 h
    obtain ⟨heq, rfl⟩ := Build.pure_yields.1 h
    cases heq
    refine ⟨(Factory.Adds.create hcreate).trans_quiet (.appendSteps _ _) happend,
      iff_of_false (Option.some_ne_none _) (List.cons_ne_nil _ _), ?_⟩
    exact Log.mentioned_of_appendSteps happend

theorem adds_groupKey {keys : List TupleFunction} {key : Option GroupKey}
    (h : (groupKey factory keys).Yields s key s') :
    factory.Adds s (key.toList.map fun k => ("groupKey", k.bound)) s' := by
  match keys with
  | [] =>
    obtain ⟨rfl, rfl⟩ := Build.pure_yields.1 h
    exact .refl
  | [_] =>
    obtain ⟨bound, s₁, hcreate, h⟩ := Build.bind_yields.1 h
    obtain ⟨rfl, rfl⟩ := Build.pure_yields.1 h
    exact .create hcreate
  | _ :: _ :: _ =>
    obtain ⟨bound, s₁, hcreate, h⟩ := Build.bind_yields.1 h
    obtain ⟨rfl, rfl⟩ := Build.pure_yields.1 h
    exact .create hcreate

theorem adds_collectorOutputs {collectors : List Collector} {outputs : List CollectorOutput}
    (h : (collectorOutputs factory collectors).Yields s outputs s') :
    factory.Adds s (outputs.map fun output => ("result", output.bound)) s' := by
  refine Factory.Adds.mapM (fun h => ?_) h
  obtain ⟨bound, s₁, hcreate, h⟩ := Build.bind_yields.1 h
  obtain ⟨rfl, rfl⟩ := Build.pure_yields.1 h
  exact .create hcreate

/-- Each component is bound to a part of the packed key. -/
theorem adds_bindComponents {composite : Variable} {count : Nat}
    {pairs : List (Variable × Condition)}
    (h : (bindComponents factory composite count).Yields s pairs s') :
    factory.Adds s (pairs.map fun pair => ("groupKey", pair.1)) s' ∧
      ∀ pair ∈ pairs, pair.2.parts.flatMap Condition.mentions = [pair.1, composite] := by
  constructor
  · refine Factory.Adds.mapM (fun h => ?_) h
    obtain ⟨bound, s₁, hcreate, h⟩ := Build.bind_yields.1 h
    obtain ⟨c, s₂, hmake, h⟩ := Build.bind_yields.1 h
    obtain ⟨rfl, rfl⟩ := Build.pure_yields.1 h
    exact (Factory.Adds.create hcreate).trans_quiet (.newStep _) hmake
  · intro pair hpair
    obtain ⟨index, s₁, s₂, h⟩ := Build.exists_of_mem_mapM h hpair
    obtain ⟨bound, s₃, -, h⟩ := Build.bind_yields.1 h
    obtain ⟨c, s₄, hmake, h⟩ := Build.bind_yields.1 h
    obtain ⟨id, s₅, -, hmake⟩ := Build.bind_yields.1 hmake
    obtain ⟨rfl, -⟩ := Build.pure_yields.1 hmake
    obtain ⟨rfl, -⟩ := Build.pure_yields.1 h
    rfl

theorem growing_componentSlots {log full : Log} {slots : List Slot}
    {pairs : List (Variable × Condition)}
    (h : (componentSlots log pairs).Yields s (full, slots) s') :
    Growing log slots full ∧ full.mentioned =
        log.mentioned ++ pairs.flatMap fun pair => pair.2.parts.flatMap Condition.mentions := by
  induction pairs generalizing log slots s with
  | nil =>
    obtain ⟨heq, -⟩ := Build.pure_yields.1 h
    cases heq
    exact ⟨.nil _, (List.append_nil _).symm⟩
  | cons pair pairs ih =>
    obtain ⟨grown, s₁, happend, h⟩ := Build.bind_yields.1 h
    obtain ⟨⟨last, rest⟩, s₂, hrest, h⟩ := Build.bind_yields.1 h
    obtain ⟨heq, rfl⟩ := Build.pure_yields.1 h
    cases heq
    obtain ⟨growing, mentioned⟩ := ih hrest
    have begins : log.Begins grown := by
      obtain ⟨rfl, -⟩ := Prod.mk.inj (Build.modifyGet_yields.1 happend)
      exact .link .refl
    refine ⟨.cons begins growing, ?_⟩
    rw [mentioned, Log.mentioned_of_append happend, List.flatMap_cons, List.append_assoc]

/-- Several keys have a variable for each besides the packed one. -/
theorem adds_keySlots {key : Option GroupKey} {count : Nat} {log full : Log} {slots : List Slot}
    (h : (keySlots factory log key count).Yields s (full, slots) s')
    (keyed : key = none ↔ count = 0) : ∃ components : List Variable,
      factory.Adds s (components.map fun v => ("groupKey", v)) s' ∧
      components.length = (if count ≤ 1 then 0 else count) ∧ Growing log slots full ∧
      slots.map (·.bound) ⊆ key.toList.map (·.bound) ++ components ∧
      full.mentioned = log.mentioned ++
        components.flatMap fun v => v :: key.toList.map (·.bound) := by
  cases key with
  | none =>
    obtain ⟨heq, rfl⟩ := Build.pure_yields.1 h
    cases heq
    exact ⟨[], .refl, (if_pos (keyed.1 rfl ▸ Nat.zero_le 1)).symm, .nil _, List.nil_subset _,
      (List.append_nil _).symm⟩
  | some key =>
    rw [keySlots] at h
    by_cases single : count = 1
    · rw [if_pos single] at h
      obtain ⟨heq, rfl⟩ := Build.pure_yields.1 h
      cases heq
      exact ⟨[], .refl, (if_pos (Nat.le_of_eq single)).symm, .singleton .refl, List.Subset.refl _,
        (List.append_nil _).symm⟩
    · rw [if_neg single] at h
      obtain ⟨pairs, s₁, hpairs, h⟩ := Build.bind_yields.1 h
      obtain ⟨adds, mentions⟩ := adds_bindComponents hpairs
      obtain ⟨growing, mentioned⟩ := growing_componentSlots h
      have several : ¬ count ≤ 1 := by
        have some_key : count ≠ 0 := fun none => absurd (keyed.2 none) (Option.some_ne_none key)
        omega
      refine ⟨pairs.map (·.1), ?_, ?_, growing, ?_, ?_⟩
      · rw [List.map_map]
        exact adds.trans_quiet (.componentSlots log pairs) h
      · rw [if_neg several, List.length_map, Build.length_of_mapM hpairs, List.length_range]
      · rw [bounds_of_componentSlots h]
        exact List.subset_append_right _ _
      · rw [mentioned, List.flatMap_map]
        exact congrArg (log.mentioned ++ ·) (List.flatMap_congr mentions)

end Expression

/-! ## What is introduced -/

/-- The bases that a grouping gives for the variables that it makes. -/
def GroupRequest.bases (request : GroupRequest) : List String :=
  (if request.collectors = [] then [] else ["source"]) ++
    ((if request.keys = [] then [] else ["groupKey"]) ++
      (List.replicate request.collectors.length "result" ++
        List.replicate (if request.keys.length ≤ 1 then 0 else request.keys.length) "groupKey"))

/-- The expression has been built of these known variables and of new ones, made in this order for
these bases. -/
structure Expression.Introduces (e : Expression) (known : List Variable) (bases : List String)
    (made : List (String × Variable)) : Prop where
  bases : made.map (·.1) = bases
  mentions : made.map (·.2) ⊆ e.mentioned
  nothing_else : e.mentioned ⊆ made.map (·.2) ++ known

namespace Expression

variable {e e' : Expression} {factory : Factory} {s s' : Supply}

theorem Introduces.of_mem {vs known : List Variable} {bases : List String}
    {made : List (String × Variable)} (same : ∀ v, v ∈ e.mentioned ↔ v ∈ vs)
    (bases_eq : made.map (·.1) = bases) (mentions : made.map (·.2) ⊆ vs)
    (nothing_else : vs ⊆ made.map (·.2) ++ known) : e.Introduces known bases made :=
  ⟨bases_eq, fun v hv => (same v).2 (mentions hv), fun v hv => nothing_else ((same v).1 hv)⟩

/-- What a log mentions that starts with a grouping. -/
theorem mentioned_of_newGroup {inputs : List Variable} {source : Option Variable}
    {key : Option GroupKey} {outputs : List CollectorOutput} {input log : Log} {group : Condition}
    {s₁ : Supply}
    (hgroup : (newGroup ⟨inputs, source, key, outputs⟩ input.oldestFirst).Yields s group s₁)
    (happend : (Log.append .empty group).Yields s₁ log s') :
    log.mentioned = key.toList.map (·.bound) ++ outputs.map (·.bound) ++
      (inputs ++ source.toList) ++ input.mentioned := by
  obtain ⟨id, s₂, -, hgroup⟩ := Build.bind_yields.1 hgroup
  obtain ⟨rfl, -⟩ := Build.pure_yields.1 hgroup
  rw [Log.mentioned_of_append happend]
  cases key <;> rfl

theorem map_const_toList {α : Type} {o : Option α} {p : Prop} [Decidable p] (h : o = none ↔ p)
    (base : String) : (o.toList.map fun _ => base) = if p then [] else [base] := by
  cases o with
  | none => exact (if_pos (h.1 rfl)).symm
  | some a => exact (if_neg fun hp => Option.some_ne_none a (h.2 hp)).symm

/-- Variables that are each mentioned together with some others. -/
theorem mem_flatMap_cons {vs ws : List Variable} {v : Variable} :
    v ∈ (vs.flatMap fun w => w :: ws) ↔ v ∈ vs ∨ v ∈ ws ∧ vs ≠ [] := by
  induction vs with
  | nil => simp
  | cons w vs ih =>
    rw [List.flatMap_cons, List.mem_append, List.mem_cons, List.mem_cons, ih]
    have some_variable := List.cons_ne_nil w vs
    grind

theorem mem_grouped {source key results components inputs earlier : List Variable} {v : Variable} :
    v ∈ key ++ results ++ (inputs ++ source) ++
        (earlier ++ source.flatMap fun w => w :: inputs) ++ (components.flatMap fun w => w :: key) ↔
      v ∈ source ++ (key ++ (results ++ components)) ∨ v ∈ inputs ∨ v ∈ earlier := by
  simp only [List.mem_append, mem_flatMap_cons]
  grind

/-- What a grouping makes. -/
def groupMade (source : Option Variable) (key : Option GroupKey) (outputs : List CollectorOutput)
    (components : List Variable) : List (String × Variable) :=
  source.toList.map (fun v => ("source", v)) ++
    (key.toList.map (fun k => ("groupKey", k.bound)) ++
      (outputs.map (fun output => ("result", output.bound)) ++
        components.map fun v => ("groupKey", v)))

theorem bases_groupMade {source : Option Variable} {key : Option GroupKey}
    {outputs : List CollectorOutput} {components : List Variable} {request : GroupRequest}
    (sourced : source = none ↔ request.collectors = []) (keyed : key = none ↔ request.keys = [])
    (results : outputs.length = request.collectors.length)
    (unpacked : components.length = if request.keys.length ≤ 1 then 0 else request.keys.length) :
    (groupMade source key outputs components).map (·.1) = request.bases := by
  simp only [groupMade, List.map_append, List.map_map, Function.comp_def]
  rw [map_const_toList sourced, map_const_toList keyed, List.map_const', List.map_const', results,
    unpacked]
  rfl

theorem variables_groupMade (source : Option Variable) (key : Option GroupKey)
    (outputs : List CollectorOutput) (components : List Variable) :
    (groupMade source key outputs components).map (·.2) = source.toList ++
      (key.toList.map (·.bound) ++ (outputs.map (·.bound) ++ components)) := by
  simp only [groupMade, List.map_append, List.map_map, Function.comp_def, List.map_id']

/-- A grouping mentions what it makes, the variables of its operand and what its input mentions. -/
theorem adds_groupBy {request : GroupRequest}
    (makes : (e.groupBy factory request).Yields s e' s') :
    ∃ made combined, factory.Adds s made s' ∧ made.map (·.1) = request.bases ∧
      Log.mentioned combined ⊆ e.mentioned ∧
      ∀ v, v ∈ e'.mentioned ↔ v ∈ made.map (·.2) ∨ v ∈ e.visible ∨ v ∈ combined.mentioned := by
  rw [groupBy_eq] at makes
  obtain ⟨_, s₁, hvalid, makes⟩ := Build.bind_yields.1 makes
  obtain ⟨combined, s₂, hunion, makes⟩ := Build.bind_yields.1 makes
  obtain ⟨⟨source, input⟩, s₃, hsource, makes⟩ := Build.bind_yields.1 makes
  obtain ⟨key, s₄, hkey, makes⟩ := Build.bind_yields.1 makes
  obtain ⟨outputs, s₅, houtputs, makes⟩ := Build.bind_yields.1 makes
  obtain ⟨group, s₆, hgroup, makes⟩ := Build.bind_yields.1 makes
  obtain ⟨log, s₇, happend, makes⟩ := Build.bind_yields.1 makes
  obtain ⟨⟨full, slots⟩, s₈, hkeySlots, makes⟩ := Build.bind_yields.1 makes
  obtain ⟨hslots, rfl⟩ := Build.check_yields.1 makes
  have keyed := isSome_of_groupKey hkey
  obtain ⟨adds_source, sourced, mentioned_input⟩ := adds_sourceLog hsource
  obtain ⟨components, adds_components, unpacked, growing, bounds, mentioned_full⟩ :=
    adds_keySlots hkeySlots (keyed.trans List.length_eq_zero_iff.symm)
  have adds_group := ((adds_collectorOutputs houtputs).trans_quiet (.newGroup _ _)
    hgroup).trans_quiet (.append _ _) happend
  have adds : factory.Adds s (groupMade source key outputs components) s' :=
    (Factory.Adds.quiet (.check _) hvalid).trans <|
      (Factory.Adds.quiet (.union _) hunion).trans <|
      adds_source.trans <| (adds_groupKey hkey).trans <| adds_group.trans adds_components
  have mentioned : ∀ v, v ∈ full.mentioned ↔
      v ∈ (groupMade source key outputs components).map (·.2) ∨ v ∈ e.visible ∨
        v ∈ combined.mentioned := by
    intro v
    rw [mentioned_full, mentioned_of_newGroup hgroup happend, mentioned_input, variables_groupMade]
    exact mem_grouped
  refine ⟨_, combined, adds, bases_groupMade sourced keyed (Build.length_of_mapM houtputs) unpacked,
    List.Subset.trans (Log.mentioned_subset_of_union hunion) e.logs_subset, fun v => ?_⟩
  have results : Growing full (outputs.map fun output => ⟨output.bound, full⟩) full := by
    refine .constant fun slot hslot => ?_
    obtain ⟨output, -, rfl⟩ := List.mem_map.1 hslot
    rfl
  rw [← mentioned, mem_mentioned_of_growing hslots (growing.append results)]
  -- the slots are of variables that have been made
  intro v hv
  rw [mentioned, variables_groupMade]
  rw [List.map_append, List.map_map] at hv
  refine .inl (List.mem_append_right _ ?_)
  rcases List.mem_append.1 hv with hv | hv
  · refine (List.mem_append.1 (bounds hv)).elim (List.mem_append_left _) fun hv => ?_
    exact List.mem_append_right _ (List.mem_append_right _ hv)
  · exact List.mem_append_right _ (List.mem_append_left _ hv)

theorem introduces_groupBy {request : GroupRequest}
    (makes : (e.groupBy factory request).Yields s e' s') :
    ∃ made, factory.Adds s made s' ∧ e'.Introduces e.mentioned request.bases made := by
  obtain ⟨made, combined, adds, bases, known, mentioned⟩ := adds_groupBy makes
  refine ⟨made, adds, bases, fun v hv => (mentioned v).2 (.inl hv), fun v hv => ?_⟩
  rcases (mentioned v).1 hv with hv | hv | hv
  · exact List.mem_append_left _ hv
  · exact List.mem_append_right _ (e.visible_subset hv)
  · exact List.mem_append_right _ (known hv)

theorem mentions_joinSteps {inputs : List Variable} {target : Variable} {rule : JoinRule}
    {step : Step} (h : step ∈ joinSteps inputs target rule) :
    step.mentions = inputs ++ [target] := by
  rcases List.mem_append.1 h with h | h
  · obtain ⟨c, -, rfl⟩ := List.mem_map.1 h
    rfl
  · obtain ⟨filter, -, rfl⟩ := List.mem_map.1 h
    rfl

theorem introduces_forEach {type : FactType} (makes : (forEach factory type).Yields s e s') :
    ∃ made, factory.Adds s made s' ∧ e.Introduces [] [type.baseName] made := by
  obtain ⟨bound, s₁, hcreate, makes⟩ := Build.bind_yields.1 makes
  obtain ⟨log, s₂, happend, makes⟩ := Build.bind_yields.1 makes
  obtain ⟨rfl, rfl⟩ := Build.pure_yields.1 makes
  refine ⟨_, (Factory.Adds.create hcreate).trans_quiet (.appendSteps _ _) happend,
    .of_mem (mem_mentioned_ofSlot bound log) rfl ?_ ?_⟩
  all_goals rw [Log.mentioned_of_appendSteps happend]
  · exact List.cons_subset_cons bound (List.nil_subset _)
  · show [bound, bound] ⊆ [bound]
    exact List.cons_subset_of_subset_of_mem (List.mem_singleton_self bound) (List.Subset.refl _)

theorem quiet_require (e : Expression) (step : Step) : (e.require step).Quiet :=
  (Build.Quiet.appendSteps _ _).bind fun _ => .pure _

theorem introduces_filter {predicate : TuplePredicate}
    (makes : (e.filter predicate).Yields s e' s') :
    ∃ made, factory.Adds s made s' ∧ e'.Introduces e.mentioned [] made := by
  refine ⟨[], .quiet (quiet_require e _) makes,
    .of_mem (mem_mentioned_of_require makes) rfl (List.nil_subset _) ?_⟩
  exact List.append_subset.2
    ⟨List.append_subset.2 ⟨e.slots_subset, e.visible_subset⟩, e.visible_subset⟩

theorem introduces_existence {quantifier : Quantifier} {type : FactType} {joiners : List Joiner}
    (makes : (e.checkExistence factory quantifier type joiners).Yields s e' s') :
    ∃ made, factory.Adds s made s' ∧ e'.Introduces e.mentioned ["toExist"] made := by
  obtain ⟨rule, s₁, hrule, makes⟩ := Build.bind_yields.1 makes
  obtain ⟨candidate, s₂, hcreate, makes⟩ := Build.bind_yields.1 makes
  have checked : factory.Adds s [] s₁ := .quiet (.check _) hrule
  have adds := checked.trans ((Factory.Adds.create hcreate).trans_quiet (quiet_require e _) makes)
  refine ⟨_, adds, .of_mem (mem_mentioned_of_require makes) rfl ?_ ?_⟩
  · refine List.cons_subset.2 ⟨?_, List.nil_subset _⟩
    exact List.mem_append_right _ List.mem_cons_self
  · have known := List.append_subset.2 ⟨e.slots_subset, e.visible_subset⟩
    exact List.append_subset.2 ⟨List.subset_append_of_subset_right _ known,
      List.cons_subset_cons candidate e.visible_subset⟩

theorem introduces_map {function : TupleFunction}
    (makes : (e.map factory function).Yields s e' s') :
    ∃ made, factory.Adds s made s' ∧ e'.Introduces e.mentioned ["mapped"] made := by
  obtain ⟨bound, s₁, hcreate, makes⟩ := Build.bind_yields.1 makes
  obtain ⟨combined, s₂, hunion, makes⟩ := Build.bind_yields.1 makes
  obtain ⟨log, s₃, happend, makes⟩ := Build.bind_yields.1 makes
  obtain ⟨rfl, rfl⟩ := Build.pure_yields.1 makes
  have known := List.Subset.trans (Log.mentioned_subset_of_union hunion) e.logs_subset
  have adds := ((Factory.Adds.create hcreate).trans_quiet (.union _) hunion).trans_quiet
    (.appendSteps _ _) happend
  refine ⟨_, adds, .of_mem (mem_mentioned_ofSlot bound log) rfl ?_ ?_⟩
  all_goals rw [Log.mentioned_of_appendSteps happend, List.flatMap_singleton]
  · exact List.cons_subset_cons bound (List.nil_subset _)
  · refine List.cons_subset.2 ⟨List.mem_cons_self, List.append_subset.2 ⟨?_, ?_⟩⟩
    · exact List.subset_cons_of_subset bound known
    · exact List.cons_subset_cons bound e.visible_subset

theorem introduces_join {left right : Expression} {joiners : List Joiner}
    (makes : (left.join right joiners).Yields s e s') :
    ∃ made, factory.Adds s made s' ∧ e.Introduces (left.mentioned ++ right.mentioned) [] made := by
  obtain ⟨rule, s₁, hrule, makes⟩ := Build.bind_yields.1 makes
  obtain ⟨both, s₂, hunion, makes⟩ := Build.bind_yields.1 makes
  obtain ⟨log, s₃, happend, makes⟩ := Build.bind_yields.1 makes
  obtain ⟨hslots, rfl⟩ := Build.check_yields.1 makes
  have target : right.last.bound ∈ left.mentioned ++ right.mentioned := by
    exact List.mem_append_right _ (right.last_subset List.mem_cons_self)
  have logs : both.mentioned ⊆ left.mentioned ++ right.mentioned := by
    refine List.Subset.trans (Log.mentioned_subset_of_union hunion) ?_
    rw [List.flatMap_cons, List.flatMap_singleton]
    have last_log : ∀ e : Expression, e.last.log.mentioned ⊆ e.mentioned := fun e =>
      List.Subset.trans (List.subset_cons_self _ _) e.last_subset
    exact List.append_subset.2 ⟨List.subset_append_of_subset_left _ (last_log left),
      List.subset_append_of_subset_right _ (last_log right)⟩
  have tests : (joinSteps left.visible right.last.bound rule).flatMap Step.mentions ⊆
      left.mentioned ++ right.mentioned := by
    intro v hv
    obtain ⟨step, hstep, hv⟩ := List.mem_flatMap.1 hv
    rw [mentions_joinSteps hstep] at hv
    rcases List.mem_append.1 hv with hv | hv
    · exact List.mem_append_left _ (left.visible_subset hv)
    · rwa [List.mem_singleton.1 hv]
  have checked : factory.Adds s [] s₁ := .quiet (.check _) hrule
  have adds := (checked.trans_quiet (.union _) hunion).trans_quiet (.appendSteps _ _) happend
  refine ⟨[], adds, .of_mem (mem_mentioned_of_ofSlots hslots) rfl (List.nil_subset _) ?_⟩
  rw [List.map_nil, List.nil_append, List.flatMap_append, List.flatMap_singleton, Slot.mentioned,
    Log.mentioned_of_appendSteps happend]
  exact List.append_subset.2 ⟨List.subset_append_of_subset_left _ left.slots_subset,
    List.cons_subset.2 ⟨target, List.append_subset.2 ⟨logs, tests⟩⟩⟩

end Expression

/-! ## Calls -/

namespace Call

variable {n : Nat}

def operands : Call n → List (Fin n)
  | .forEach _ => []
  | .filter operand _ => [operand]
  | .join left right _ => [left, right]
  | .existence operand _ _ _ => [operand]
  | .map operand _ => [operand]
  | .groupBy operand _ => [operand]

/-- The variables that the operands mention. -/
def known (es : Fin n → Expression) (c : Call n) : List Variable :=
  c.operands.flatMap fun i => (es i).mentioned

/-- The bases that a call gives for the variables that it makes. -/
def bases : Call n → List String
  | .forEach type => [type.baseName]
  | .filter _ _ => []
  | .join _ _ _ => []
  | .existence _ _ _ _ => ["toExist"]
  | .map _ _ => ["mapped"]
  | .groupBy _ request => request.bases

variable {c : Call n} {factory : Factory} {es : Fin n → Expression} {e : Expression}
  {s s' : Supply}

theorem adds_build (makes : (c.build factory es).Yields s e s') :
    ∃ made, factory.Adds s made s' ∧ e.Introduces (c.known es) c.bases made := by
  cases c with
  | forEach type => exact Expression.introduces_forEach makes
  | filter operand predicate =>
    rw [known, operands, List.flatMap_singleton]
    exact Expression.introduces_filter makes
  | join left right joiners =>
    rw [known, operands, List.flatMap_cons, List.flatMap_singleton]
    exact Expression.introduces_join makes
  | existence operand quantifier type joiners =>
    rw [known, operands, List.flatMap_singleton]
    exact Expression.introduces_existence makes
  | map operand function =>
    rw [known, operands, List.flatMap_singleton]
    exact Expression.introduces_map makes
  | groupBy operand request =>
    rw [known, operands, List.flatMap_singleton]
    exact Expression.introduces_groupBy makes

end Call

/-! ## Programs -/

/-- The variables that a plan shows or has in its conditions. -/
def Plan.mentioned (plan : Plan) : List Variable :=
  plan.visible ++ (Condition.partsAll plan.conditions).flatMap Condition.mentions

theorem Expression.mentioned_toPlan (e : Expression) (weigher : Weigher) :
    (e.toPlan weigher).mentioned ⊆ e.mentioned :=
  List.append_subset.2 ⟨e.visible_subset, e.log_subset⟩

namespace Program

/-- The variables that are there when so many expressions have been built. -/
def known {n : Nat} (es : Fin n → Expression) : List Variable :=
  (List.ofFn es).flatMap Expression.mentioned

theorem mentioned_subset_known {n : Nat} (es : Fin n → Expression) (i : Fin n) :
    (es i).mentioned ⊆ known es :=
  fun _ hv => List.mem_flatMap.2 ⟨es i, List.mem_ofFn.2 ⟨i, rfl⟩, hv⟩

theorem known_of_call {n : Nat} (c : Call n) (es : Fin n → Expression) : c.known es ⊆ known es := by
  intro v hv
  obtain ⟨i, -, hv⟩ := List.mem_flatMap.1 hv
  exact mentioned_subset_known es i hv

theorem known_cons {n : Nat} (e : Expression) (es : Fin n → Expression) :
    known (Expression.cons e es) = e.mentioned ++ known es := by
  rw [known, Expression.cons, List.ofFn_cons, List.flatMap_cons, known]

/-- A program creates variables call by call, and ends in a plan of these and of known ones. -/
theorem adds_run {n : Nat} (p : Program n) {factory : Factory} {es : Fin n → Expression}
    {result : Except PlanError Plan} {s s' : Supply}
    (runs : (p.build factory es).run.run s = (result, s')) :
    ∃ made, factory.Adds s made s' ∧
      ∀ plan, result = .ok plan → plan.mentioned ⊆ made.map (·.2) ++ known es := by
  induction p generalizing s with
  | terminate operand weigher =>
    obtain ⟨rfl, rfl⟩ := Prod.mk.inj runs
    refine ⟨[], .refl, fun plan hplan => ?_⟩
    cases hplan
    exact List.Subset.trans (Expression.mentioned_toPlan _ _) (mentioned_subset_known es operand)
  | fail error =>
    obtain ⟨rfl, rfl⟩ := Prod.mk.inj runs
    exact ⟨[], .refl, fun plan hplan => by cases hplan⟩
  | call c success failure succeeded failed =>
    rw [build, Build.run_either] at runs
    split at runs
    · next e s₁ makes =>
      obtain ⟨made, adds, introduces⟩ := Call.adds_build makes
      obtain ⟨more, adds_more, mentioned⟩ := succeeded runs
      refine ⟨made ++ more, adds.trans adds_more, fun plan hplan => ?_⟩
      have later := mentioned plan hplan
      rw [known_cons] at later
      rw [List.map_append]
      refine List.Subset.trans later (List.append_subset.2 ⟨?_, List.append_subset.2 ⟨?_, ?_⟩⟩)
      · exact List.subset_append_of_subset_left _ (List.subset_append_right _ _)
      · refine List.Subset.trans introduces.nothing_else (List.append_subset.2 ⟨?_, ?_⟩)
        · exact List.subset_append_of_subset_left _ (List.subset_append_left _ _)
        · exact List.subset_append_of_subset_right _ (known_of_call c es)
      · exact List.subset_append_right _ _
    · next error s₁ fails =>
      obtain ⟨-, rfl⟩ := Call.run_eq_error_iff.1 fails
      exact failed error runs

end Program

end MatchAlgebra
