import MatchAlgebra.Proofs.Scopes
import MatchAlgebra.Proofs.Terms

/-!
# Terms flattened into conditions

A term is evaluated as one list of conditions over rows of bindings, whatever its shape: the
operands of a join come one after the other, and only groupings keep a list of their own.  `Layout`
says which lists of conditions, with which visible variables and of which declared types, are laid
out as which terms.  It says so without logs and without a word on names.  All that is asked of
names is that none is bound twice, which makes a flattened term (`Flat`) of a layout.

A flattened term gives the rows of the term, one row of bindings for each:

    Flat t cs vs  →  ∃ rows, deriveAll .afresh facts 0 [empty] cs = .ok rows ∧
      Forall₂ (fun row x => row.read vs = .ok x) rows (t.rows facts)     (Flat.reads)
-/

namespace MatchAlgebra

/-! ## Flattening -/

/-- The input of a grouping: with a source, the whole tuple is bound at its end. -/
inductive SourceLayout (vs : List Variable) (cs : List Condition) :
    List Collector → Option Variable → List Condition → Prop
  | none : SourceLayout vs cs [] .none cs
  | some {collectors : List Collector} {source : Variable} {c : Condition}
      (declared : source.type = .tuple vs.length) (binds : c.Does (.bind source vs wholeTuple)) :
      SourceLayout vs cs collectors (.some source) (cs ++ [c])

namespace SourceLayout

variable {vs : List Variable} {cs input : List Condition} {collectors : List Collector}
  {source : Option Variable}

theorem isScoped (h : SourceLayout vs cs collectors source input) (hcs : Condition.Scoped cs)
    (hvs : ∀ v ∈ vs, v ∈ cs.flatMap Condition.binds) : Condition.Scoped input ∧
      ∀ v ∈ vs ++ source.toList, v ∈ input.flatMap Condition.binds := by
  cases h with
  | none => exact ⟨hcs, by rwa [Option.toList_none, List.append_nil]⟩
  | some _ binds =>
    refine ⟨hcs.snoc binds hvs, fun v hv => ?_⟩
    obtain ⟨id, rfl⟩ := binds
    rw [List.flatMap_append, List.mem_append]
    exact (List.mem_append.1 hv).imp_left (hvs v)

/-- The input has nothing but the conditions and, maybe, the binding of the source. -/
theorem forall_partsAll {P : Condition → Prop} (h : SourceLayout vs cs collectors source input)
    (hcs : ∀ d ∈ Condition.partsAll cs, P d)
    (hsource : ∀ id source, source.type = .tuple vs.length →
      P (.step id (.bind source vs wholeTuple))) : ∀ d ∈ Condition.partsAll input, P d := by
  cases h with
  | none => exact hcs
  | some declared binds =>
    refine Condition.forall_partsAll_append_steps binds.singleton hcs fun c s hs hc => ?_
    cases List.mem_singleton.1 hs
    obtain ⟨id, rfl⟩ := hc
    exact hsource id _ declared

theorem mem_partsAll (h : SourceLayout vs cs collectors source input) {d : Condition}
    (hd : d ∈ Condition.partsAll cs) : d ∈ Condition.partsAll input := by
  cases h with
  | none => exact hd
  | some _ _ => exact Condition.partsAll_subset_left _ _ hd

variable (once : Condition.BindOnce input)
include once

theorem bindOnce (h : SourceLayout vs cs collectors source input) : Condition.BindOnce cs := by
  cases h with
  | none => exact once
  | some => exact once.left

theorem fresh (h : SourceLayout vs cs collectors source input)
    (hvs : ∀ v ∈ vs, v ∈ cs.flatMap Condition.binds) : ∀ s ∈ source, s.id ∉ vs.map (·.id) := by
  cases h with
  | none => exact fun s hs => by cases hs
  | some _ binds =>
    rintro s hs hmem
    cases hs
    obtain ⟨id, rfl⟩ := binds
    obtain ⟨v, hv, heq⟩ := List.mem_map.1 hmem
    exact once.apart v (hvs v hv) _ List.mem_cons_self heq

end SourceLayout

/-- The steps that bind the components of a packed key to variables of their own. -/
def componentSteps (composite : Variable) (components : List Variable) : List Step :=
  components.zipIdx.map fun (v, index) => .bind v [composite] (keyComponent index)

theorem flatMap_binds_componentSteps (composite : Variable) (components : List Variable) :
    (componentSteps composite components).flatMap Step.binds = components := by
  rw [componentSteps, List.flatMap_map]
  exact List.map_eq_flatMap.symm.trans (List.zipIdx_map_fst 0 components)

/-- The key of a grouping with the variables for its components and the conditions that bind them:
several keys are packed into one. -/
inductive KeyLayout : List TupleFunction → Option GroupKey → List Variable → List Condition → Prop
  | none : KeyLayout [] .none [] []
  | one (key : TupleFunction) {bound : Variable} (declared : bound.type = .value) :
      KeyLayout [key] (.some ⟨bound, key⟩) [bound] []
  | packed {keys : List TupleFunction} {composite : Variable} {components : List Variable}
      {cs : List Condition} (several : 1 < keys.length)
      (length_eq : components.length = keys.length)
      (declared : composite.type = .tuple keys.length)
      (components_declared : ∀ v ∈ components, v.type = .value)
      (binds : List.Forall₂ Condition.Does cs (componentSteps composite components)) :
      KeyLayout keys (.some ⟨composite, keyTuple keys⟩) components cs

namespace KeyLayout

variable {keys : List TupleFunction} {key : Option GroupKey} {vs : List Variable}
  {cs : List Condition}

/-- The keys that can be seen are values of their own, not packed ones. -/
theorem declared (h : KeyLayout keys key vs cs) : ∀ v ∈ vs, v.type = .value := by
  cases h with
  | none => exact fun v hv => absurd hv List.not_mem_nil
  | one _ declared => exact List.forall_mem_singleton.2 declared
  | packed _ _ _ components_declared => exact components_declared

/-- There is a variable for each key that was asked for. -/
theorem length (h : KeyLayout keys key vs cs) : vs.length = keys.length := by
  cases h with
  | none => rfl
  | one => rfl
  | packed several length_eq => exact length_eq

/-- What comes after the grouping takes components out of its key, which has them. -/
theorem exists_steps (h : KeyLayout keys key vs cs) :
    ∃ steps, List.Forall₂ Condition.Does cs steps ∧ ∀ s ∈ steps, ∃ k ∈ key, ∃ v ∈ vs, ∃ index,
      s = .bind v [k.bound] (keyComponent index) ∧ v.type = .value ∧
        k.bound.type = .tuple keys.length ∧ index < keys.length := by
  cases h with
  | none => exact ⟨[], .nil, fun s hs => absurd hs List.not_mem_nil⟩
  | one => exact ⟨[], .nil, fun s hs => absurd hs List.not_mem_nil⟩
  | packed several length_eq declared components_declared binds =>
    refine ⟨_, binds, fun s hs => ?_⟩
    obtain ⟨⟨v, index⟩, hmem, rfl⟩ := List.mem_map.1 hs
    have hv := List.fst_mem_of_mem_zipIdx hmem
    have hindex := List.snd_lt_of_mem_zipIdx hmem
    refine ⟨_, rfl, v, hv, index, rfl, components_declared v hv, declared, ?_⟩
    rw [← length_eq]
    omega

theorem bound_of_mem (h : KeyLayout keys key vs cs) {v : Variable} (hv : v ∈ vs) :
    v ∈ (key.map (·.bound)).toList ++ cs.flatMap Condition.binds := by
  cases h with
  | none => cases hv
  | one => exact List.mem_append_left _ hv
  | packed several length_eq _ _ binds =>
    refine List.mem_append_right _ ?_
    rwa [Condition.Does.flatMap_binds binds, flatMap_binds_componentSteps]

section
variable {id : Nat} {grouping : Grouping} {input : List Condition} (hkey : grouping.key = key)
  (once : Condition.BindOnce (.group id grouping input :: cs))
include hkey once

/-- Nothing after the grouping binds its key. -/
theorem fresh : ∀ k ∈ key, k.bound.id ∉ (cs.flatMap Condition.binds).map (·.id) := by
  rintro k hk hmem
  obtain ⟨w, hw, heq⟩ := List.mem_map.1 hmem
  refine (Condition.BindOnce.group_cons_iff.1 once).2.2 k.bound ?_ w hw heq.symm
  exact List.mem_append_left _ (Option.mem_toList.2 (Option.mem_map_of_mem _ (hkey ▸ hk)))

/-- No result of the grouping takes the variable of its key. -/
theorem fresh_outputs :
    ∀ k ∈ key, k.bound.id ∉ (grouping.outputs.map (·.bound)).map (·.id) := by
  intro k hk hmem
  have nodup := (Condition.BindOnce.group_cons_iff.1 once).1.1
  rw [Grouping.binds, hkey, Option.mem_def.1 hk] at nodup
  exact (List.nodup_cons.1 nodup).1 hmem

/-- The variables that can be seen after the grouping are different. -/
theorem nodup_visible (h : KeyLayout keys key vs cs) :
    ((vs ++ grouping.outputs.map (·.bound)).map (·.id)).Nodup := by
  obtain ⟨⟨nodup, -⟩, rest, apart⟩ := Condition.BindOnce.group_cons_iff.1 once
  rw [Grouping.binds, hkey] at nodup
  cases h with
  | none => exact nodup
  | one => exact nodup
  | packed several length_eq _ _ binds =>
    have components := rest.here
    rw [Condition.Does.flatMap_binds binds, flatMap_binds_componentSteps] at components apart
    rw [List.map_append, List.nodup_append]
    refine ⟨components, (List.nodup_cons.1 nodup).2, ?_⟩
    rintro _ hid _ hid' rfl
    obtain ⟨w, hw, heq⟩ := List.mem_map.1 hid
    obtain ⟨v, hv, heq'⟩ := List.mem_map.1 hid'
    exact apart v (List.mem_append_right _ hv) w hw (heq'.trans heq.symm)

end

end KeyLayout

/-- A join reads both sides, and what it requires of a pair binds nothing. -/
theorem binds_joinSteps {inputs : List Variable} {target : Variable} {rule : JoinRule} {s : Step}
    (h : s ∈ Expression.joinSteps inputs target rule) :
    s.binds = [] ∧ s.reads = inputs ++ [target] := by
  rcases List.mem_append.1 h with h | h
  · obtain ⟨c, -, rfl⟩ := List.mem_map.1 h
    exact ⟨rfl, rfl⟩
  · obtain ⟨filter, -, rfl⟩ := List.mem_map.1 h
    exact ⟨rfl, rfl⟩

inductive Layout : Term → List Condition → List Variable → Prop
  | forEach {type : FactType} {bound : Variable} {c : Condition}
      (declared : bound.type = .fact type) (binds : c.Does (.pattern bound type)) :
      Layout (.forEach type) [c] [bound]
  | filter {t : Term} {predicate : TuplePredicate} {cs : List Condition} {vs : List Variable}
      {c : Condition} (operand : Layout t cs vs) (tests : c.Does (.filter vs predicate)) :
      Layout (.filter t predicate) (cs ++ [c]) vs
  | join {left right : Term} {joiners : List Joiner} {rule : JoinRule}
      {cs ds tests : List Condition} {vs : List Variable} {target : Variable}
      (left_layout : Layout left cs vs) (right_layout : Layout right ds [target])
      (room : vs.length < maxDegree) (merged : Joiner.merge joiners = .ok rule)
      (does : List.Forall₂ Condition.Does tests (Expression.joinSteps vs target rule)) :
      Layout (.join left right joiners) (cs ++ ds ++ tests) (vs ++ [target])
  | existence {t : Term} {quantifier : Quantifier} {type : FactType} {joiners : List Joiner}
      {rule : JoinRule} {cs : List Condition} {vs : List Variable} {candidate : Variable}
      {c : Condition} (operand : Layout t cs vs) (merged : Joiner.merge joiners = .ok rule)
      (tests : c.Does (.existence ⟨quantifier, candidate, type, vs, rule⟩)) :
      Layout (.existence t quantifier type joiners) (cs ++ [c]) vs
  | map {t : Term} {function : TupleFunction} {cs : List Condition} {vs : List Variable}
      {bound : Variable} {c : Condition} (operand : Layout t cs vs)
      (declared : bound.type = .value) (binds : c.Does (.bind bound vs function)) :
      Layout (.map t function) (cs ++ [c]) [bound]
  | groupBy {t : Term} {request : GroupRequest} {cs input components : List Condition}
      {vs keys : List Variable} {source : Option Variable} {key : Option GroupKey}
      {outputs : List CollectorOutput} (id : Nat) (operand : Layout t cs vs)
      (valid : request.validate = .ok ())
      (sources : SourceLayout vs cs request.collectors source input)
      (packs : KeyLayout request.keys key keys components)
      (measures : outputs.map (·.collector) = request.collectors)
      (declared : ∀ output ∈ outputs, output.bound.type = .value) :
      Layout (.groupBy t request)
        (.group id ⟨vs, source, key, outputs⟩ input :: components)
        (keys ++ outputs.map (·.bound))

theorem GroupRequest.validate_eq_ok {request : GroupRequest} :
    request.validate = .ok () ↔ request.degree ≠ 0 ∧ request.degree ≤ maxDegree := by
  unfold validate
  split
  · next hzero => simp [hzero]
  · next hne =>
    split
    · next hlt => simp [Nat.not_le.2 hlt]
    · next hle => simp [hne, Nat.not_lt.1 hle]

namespace Layout

variable {t : Term} {cs : List Condition} {vs : List Variable}

/-! ### Visible variables -/

theorem length_groupBy {request : GroupRequest} {components : List Condition}
    {keys : List Variable} {key : Option GroupKey} {outputs : List CollectorOutput}
    (packs : KeyLayout request.keys key keys components)
    (measures : outputs.map (·.collector) = request.collectors) :
    (keys ++ outputs.map (·.bound)).length = request.degree := by
  rw [List.length_append, List.length_map, packs.length, GroupRequest.degree, ← measures,
    List.length_map]

theorem visible_ne_nil (h : Layout t cs vs) : vs ≠ [] := by
  induction h with
  | forEach => exact List.cons_ne_nil _ _
  | filter _ _ ih => exact ih
  | join => simp
  | existence _ _ _ ih => exact ih
  | map => exact List.cons_ne_nil _ _
  | groupBy id _ valid _ packs measures _ _ =>
    intro hnil
    have length := length_groupBy packs measures
    rw [hnil] at length
    exact (GroupRequest.validate_eq_ok.1 valid).1 length.symm

theorem length_le (h : Layout t cs vs) : vs.length ≤ maxDegree := by
  induction h with
  | forEach => exact Nat.succ_pos 3
  | filter _ _ ih => exact ih
  | join _ _ room _ _ _ _ =>
    rw [List.length_append]
    exact room
  | existence _ _ _ ih => exact ih
  | map => exact Nat.succ_pos 3
  | groupBy id _ valid _ packs measures _ _ =>
    rw [length_groupBy packs measures]
    exact (GroupRequest.validate_eq_ok.1 valid).2

/-- Every visible variable is bound by some condition. -/
theorem visible_bound (h : Layout t cs vs) : ∀ v ∈ vs, v ∈ cs.flatMap Condition.binds := by
  induction h with
  | forEach _ binds =>
    obtain ⟨id, rfl⟩ := binds
    exact fun v hv => hv
  | filter _ _ ih =>
    intro v hv
    rw [List.flatMap_append]
    exact List.mem_append_left _ (ih v hv)
  | join _ _ _ _ _ ihl ihr =>
    intro v hv
    rw [List.flatMap_append, List.flatMap_append]
    rcases List.mem_append.1 hv with hv | hv
    · exact List.mem_append_left _ (List.mem_append_left _ (ihl v hv))
    · exact List.mem_append_left _ (List.mem_append_right _ (ihr v hv))
  | existence _ _ _ ih =>
    intro v hv
    rw [List.flatMap_append]
    exact List.mem_append_left _ (ih v hv)
  | map _ _ binds =>
    obtain ⟨id, rfl⟩ := binds
    intro v hv
    rw [List.flatMap_append]
    exact List.mem_append_right _ hv
  | groupBy id _ _ _ packs _ _ _ =>
    intro v hv
    rw [List.flatMap_cons]
    rcases List.mem_append.1 hv with hv | hv
    · rcases List.mem_append.1 (packs.bound_of_mem hv) with hv | hv
      · exact List.mem_append_left _ (List.mem_append_left _ hv)
      · exact List.mem_append_right _ hv
    · exact List.mem_append_left _ (List.mem_append_right _ hv)

/-! ### Scopes -/

/-- What a join reads is bound by its sides. -/
theorem bound_of_joinSteps {left right : Term} {ds : List Condition} {target : Variable}
    (h : Layout left cs vs) (h' : Layout right ds [target]) {rule : JoinRule} {s : Step}
    (hs : s ∈ Expression.joinSteps vs target rule) :
    ∀ v ∈ s.reads, v ∈ (cs ++ ds).flatMap Condition.binds := by
  intro v hv
  rw [(binds_joinSteps hs).2] at hv
  rw [List.flatMap_append, List.mem_append]
  exact (List.mem_append.1 hv).imp (h.visible_bound v) (h'.visible_bound v)

/-- The conditions are scoped. -/
theorem isScoped (h : Layout t cs vs) : Condition.Scoped cs := by
  induction h with
  | forEach _ binds => exact Condition.Scoped.nil.snoc binds fun v hv => absurd hv List.not_mem_nil
  | filter operand tests ih => exact ih.snoc tests operand.visible_bound
  | join left_layout right_layout _ _ does ihl ihr =>
    exact (ihl.append ihr).append_steps does fun s hs =>
      left_layout.bound_of_joinSteps right_layout hs
  | existence operand _ tests ih => exact ih.snoc tests operand.visible_bound
  | map operand _ binds ih => exact ih.snoc binds operand.visible_bound
  | @groupBy _ request cs input components vs keys source key outputs id operand _ sources packs _
      _ ih =>
    obtain ⟨inside, reads⟩ := sources.isScoped ih operand.visible_bound
    obtain ⟨steps, does, unpacks⟩ := packs.exists_steps
    have group : Condition.Scoped [.group id ⟨vs, source, key, outputs⟩ input] :=
      inside.group id reads
    refine group.append_steps does fun s hs v hv => ?_
    obtain ⟨k, hk, w, -, index, rfl, -⟩ := unpacks s hs
    rw [List.mem_singleton.1 hv, List.flatMap_singleton]
    exact List.mem_append_left _ (Option.mem_toList.2 (Option.mem_map_of_mem _ hk))

/-- Every condition has to do with some variable. -/
theorem binds_or_reads (h : Layout t cs vs) : ∀ c ∈ cs, c.binds ≠ [] ∨ c.reads ≠ [] := by
  have whole := h.visible_ne_nil
  have snoc : ∀ {cs : List Condition} {c : Condition} {s : Step},
      (∀ c ∈ cs, c.binds ≠ [] ∨ c.reads ≠ []) → c.Does s → s.reads ≠ [] →
      ∀ d ∈ cs ++ [c], d.binds ≠ [] ∨ d.reads ≠ [] := by
    rintro cs c s hcs ⟨id, rfl⟩ hs
    exact List.forall_mem_append.2 ⟨hcs, List.forall_mem_singleton.2 (.inr hs)⟩
  induction h with
  | forEach _ binds =>
    obtain ⟨id, rfl⟩ := binds
    exact List.forall_mem_singleton.2 (.inl (List.cons_ne_nil _ _))
  | filter operand tests ih =>
    exact snoc (ih operand.visible_ne_nil) tests operand.visible_ne_nil
  | join left_layout right_layout _ _ does ihl ihr =>
    refine List.forall_mem_append.2 ⟨List.forall_mem_append.2
      ⟨ihl left_layout.visible_ne_nil, ihr right_layout.visible_ne_nil⟩, fun c hc => ?_⟩
    obtain ⟨s, hs, id, rfl⟩ := Condition.Does.eq_of_mem does hc
    refine .inr ?_
    rw [Condition.reads, (binds_joinSteps hs).2]
    exact whole
  | existence operand _ tests ih =>
    exact snoc (ih operand.visible_ne_nil) tests operand.visible_ne_nil
  | map operand _ binds ih =>
    exact snoc (ih operand.visible_ne_nil) binds operand.visible_ne_nil
  | @groupBy t request cs input components vs keys source key outputs id _ _ _ packs =>
    obtain ⟨steps, does, unpacks⟩ := packs.exists_steps
    refine List.forall_mem_cons.2 ⟨.inl fun hnil => ?_, fun c hc => ?_⟩
    · obtain ⟨hkey, houtputs⟩ := List.append_eq_nil_iff.1 hnil
      refine whole (List.append_eq_nil_iff.2 ⟨?_, houtputs⟩)
      rw [List.eq_nil_iff_forall_not_mem]
      intro v hv
      have no_key : key = none := by simpa using hkey
      have no_components : components = [] := by
        rw [List.eq_nil_iff_forall_not_mem]
        intro c hc
        obtain ⟨s, hs, -⟩ := Condition.Does.eq_of_mem does hc
        obtain ⟨k, hk, -⟩ := unpacks s hs
        rw [no_key] at hk
        cases hk
      have := packs.bound_of_mem hv
      rw [hkey, no_components] at this
      cases this
    · obtain ⟨s, hs, id, rfl⟩ := Condition.Does.eq_of_mem does hc
      obtain ⟨k, -, v, -, index, rfl, -⟩ := unpacks s hs
      exact .inl (List.cons_ne_nil _ _)

end Layout

/-! ## Flattened terms -/

/-- Conditions that are laid out as the term and bind no variable twice. -/
structure Flat (t : Term) (cs : List Condition) (vs : List Variable) : Prop where
  layout : Layout t cs vs
  once : Condition.BindOnce cs

end MatchAlgebra
