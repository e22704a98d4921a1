import MatchAlgebra.Proofs.Chains
import MatchAlgebra.Proofs.Flattening

/-!
# What builds have made

A registry is a supply with everything that builds have drawn from it: the conditions, which are
told apart by their ids, and the logs, which are told apart by the numbers of their last nodes.
Each build leaves a registry with more in it:

    r.Files log  →  (Log.append log c).Yields r.supply log' s  →
      r.Reaches s fun r' => r'.Files log' ∧ ...                              (reaches_append)

So a condition that two logs of a registry hold is the same in both, and a log that ends in a node
of another is a beginning of the other.
-/

namespace MatchAlgebra

/-! ## Results of builds -/

namespace Build

variable {α β : Type} {m : Build α} {f : α → Build β} {s s' : Supply} {a : α} {b : β}

/-- The build succeeds with a result and leaves the supply as told. -/
def Yields (m : Build α) (s : Supply) (a : α) (s' : Supply) : Prop := m.run.run s = (.ok a, s')

/-- What follows a build that has failed is passed over. -/
theorem run_bind (m : Build α) (f : α → Build β) (s : Supply) : (m >>= f).run.run s =
    match m.run.run s with
    | (.ok a, s') => (f a).run.run s'
    | (.error e, s') => (.error e, s') := by
  rw [ExceptT.run_bind, StateT.run_bind]
  generalize m.run.run s = out
  obtain ⟨r, s'⟩ := out
  cases r <;> rfl

theorem bind_yields :
    Yields (m >>= f) s b s' ↔ ∃ a middle, Yields m s a middle ∧ Yields (f a) middle b s' := by
  unfold Yields
  rw [run_bind]
  generalize m.run.run s = out
  obtain ⟨r, middle⟩ := out
  cases r with
  | ok a =>
    refine ⟨fun h => ⟨a, middle, rfl, h⟩, ?_⟩
    rintro ⟨a', middle', heq, h⟩
    cases heq
    exact h
  | error e =>
    refine ⟨fun h => ?_, ?_⟩
    · cases h
    · rintro ⟨a', middle', heq, -⟩
      cases heq

theorem pure_yields {c : α} : Yields (pure a) s c s' ↔ c = a ∧ s' = s := by
  constructor
  · intro h
    cases h
    exact ⟨rfl, rfl⟩
  · rintro ⟨rfl, rfl⟩
    rfl

theorem check_yields {r : Except PlanError α} : Yields (check r) s a s' ↔ r = .ok a ∧ s' = s := by
  constructor
  · intro h
    obtain ⟨hr, hs⟩ := Prod.mk.inj h
    exact ⟨hr, hs.symm⟩
  · rintro ⟨rfl, rfl⟩
    rfl

theorem modifyGet_yields {draw : Supply → α × Supply} :
    Yields (modifyGet draw) s a s' ↔ draw s = (a, s') := by
  constructor
  · intro h
    obtain ⟨ha, hs⟩ := Prod.mk.inj h
    exact Prod.ext (Except.ok.inj ha) hs
  · intro h
    show (Except.ok (draw s).1, (draw s).2) = _
    rw [h]

end Build

/-- The log holds one condition more for each step, in their order. -/
theorem Log.appendSteps_yields {steps : List Step} {log log' : Log} {s s' : Supply}
    (h : (appendSteps log steps).Yields s log' s') :
    ∃ cs, log'.oldestFirst = log.oldestFirst ++ cs ∧ List.Forall₂ Condition.Does cs steps := by
  induction steps generalizing log s with
  | nil =>
    obtain ⟨rfl, rfl⟩ := Build.pure_yields.1 h
    exact ⟨[], (List.append_nil _).symm, .nil⟩
  | cons step steps ih =>
    obtain ⟨c, s₁, hmake, h⟩ := Build.bind_yields.1 h
    obtain ⟨grown, s₂, happend, h⟩ := Build.bind_yields.1 h
    obtain ⟨id, s₃, -, hmake⟩ := Build.bind_yields.1 hmake
    obtain ⟨rfl, -⟩ := Build.pure_yields.1 hmake
    obtain ⟨rfl, rfl⟩ := Prod.mk.inj (Build.modifyGet_yields.1 happend)
    obtain ⟨cs, conditions, does⟩ := ih h
    refine ⟨.step id step :: cs, ?_, .cons ⟨id, rfl⟩ does⟩
    rw [conditions, Chain.oldestFirst_append, List.append_assoc, List.singleton_append]

/-! ## Supplies -/

/-- The number of the variable has been given out. -/
def Supply.Used (s : Supply) (id : VariableId) : Prop := id.index ≤ s.created id.scope

/-- The later supply may come from the earlier one: what was used up stays used up. -/
structure Supply.Before (s s' : Supply) : Prop where
  idOf : s'.idOf = s.idOf
  drawn : s.drawn ≤ s'.drawn
  nextNode : s.nextNode ≤ s'.nextNode
  created : ∀ scope, s.created scope ≤ s'.created scope

/-- Conditions and nodes are numbered on from the earlier supply, whatever has become of the
numbers of variables. -/
structure Supply.Onward (s s' : Supply) : Prop where
  idOf : s'.idOf = s.idOf
  drawn : s.drawn ≤ s'.drawn
  nextNode : s.nextNode ≤ s'.nextNode

theorem Supply.Before.onward {s s' : Supply} (h : s.Before s') : s.Onward s' :=
  ⟨h.idOf, h.drawn, h.nextNode⟩

/-- The variables are different and were made after one supply and before another. -/
structure Fresh (s s' : Supply) (vs : List Variable) : Prop where
  nodup : (vs.map (·.id)).Nodup
  unused : ∀ v ∈ vs, ¬ s.Used v.id
  used : ∀ v ∈ vs, s'.Used v.id

namespace Fresh

variable {s s' s'' : Supply} {vs ws : List Variable}

theorem nil : Fresh s s' [] :=
  ⟨List.nodup_nil, fun _ hv => absurd hv List.not_mem_nil, fun _ hv => absurd hv List.not_mem_nil⟩

theorem mono {earlier later : Supply} (h : Fresh s s' vs)
    (he : ∀ id, earlier.Used id → s.Used id) (hl : ∀ id, s'.Used id → later.Used id) :
    Fresh earlier later vs :=
  ⟨h.nodup, fun v hv hused => h.unused v hv (he _ hused), fun v hv => hl _ (h.used v hv)⟩

theorem append (h : Fresh s s' vs) (h' : Fresh s' s'' ws) (hs : ∀ id, s.Used id → s'.Used id)
    (hs' : ∀ id, s'.Used id → s''.Used id) : Fresh s s'' (vs ++ ws) := by
  refine ⟨?_, fun v hv => ?_, fun v hv => ?_⟩
  · rw [List.map_append, List.nodup_append]
    refine ⟨h.nodup, h'.nodup, ?_⟩
    rintro id hid id' hid' rfl
    obtain ⟨v, hv, rfl⟩ := List.mem_map.1 hid
    obtain ⟨w, hw, heq⟩ := List.mem_map.1 hid'
    exact h'.unused w hw (heq ▸ h.used v hv)
  · rcases List.mem_append.1 hv with hv | hv
    · exact h.unused v hv
    · exact fun hused => h'.unused v hv (hs _ hused)
  · rcases List.mem_append.1 hv with hv | hv
    · exact hs' _ (h.used v hv)
    · exact h'.used v hv

end Fresh

/-! ## Registries -/

theorem Condition.beq_eq_false {c d : Condition} (h : c.id ≠ d.id) : (d == c) = false := by
  show (d.id == c.id) = false
  exact beq_false_of_ne h.symm

/-- A supply with the conditions and the logs that were made with what was drawn from it.  A log is
there with all logs that it was grown from. -/
structure Registry where
  supply : Supply
  conditions : List Condition
  logs : List Log
  drawn : ∀ c ∈ conditions, ∃ n < supply.drawn, c.id = supply.idOf n
  identified : ∀ c ∈ conditions, ∀ d ∈ conditions, c.id = d.id → c = d
  parts : ∀ c ∈ conditions, ∀ d ∈ c.parts, d ∈ conditions
  nodes : ∀ log ∈ logs, ∃ n < supply.nextNode, log.node? = some n
  numbered : ∀ log ∈ logs, ∀ other ∈ logs, log.node? = other.node? → log = other
  measured : ∀ log ∈ logs, log.Measured

namespace Registry

variable {r later : Registry} {log : Log} {c : Condition}

/-- Nothing has been made yet, whatever has been drawn for other ends. -/
def new (supply : Supply) : Registry where
  supply
  conditions := []
  logs := []
  drawn _ hc := absurd hc List.not_mem_nil
  identified _ hc := absurd hc List.not_mem_nil
  parts _ hc := absurd hc List.not_mem_nil
  nodes _ hlog := absurd hlog List.not_mem_nil
  numbered _ hlog := absurd hlog List.not_mem_nil
  measured _ hlog := absurd hlog List.not_mem_nil

/-- All that was made is still there. -/
structure Grows (r later : Registry) : Prop where
  conditions : r.conditions ⊆ later.conditions
  logs : r.logs ⊆ later.logs

/-- All that was made is still there, and no variable of it will be made again. -/
structure Before (r later : Registry) : Prop extends Grows r later where
  used : ∀ id, r.supply.Used id → later.supply.Used id

theorem Grows.refl (r : Registry) : r.Grows r := ⟨List.Subset.refl _, List.Subset.refl _⟩

namespace Before

theorem refl (r : Registry) : r.Before r := ⟨.refl r, fun _ h => h⟩

theorem trans {last : Registry} (h : r.Before later) (h' : later.Before last) : r.Before last :=
  ⟨⟨List.Subset.trans h.conditions h'.conditions, List.Subset.trans h.logs h'.logs⟩,
    fun id hid => h'.used id (h.used id hid)⟩

end Before

/-- There is a registry of the supply, with more in it, of which `P` holds. -/
abbrev Reaches (r : Registry) (s : Supply) (P : Registry → Prop) : Prop :=
  ∃ later : Registry, later.supply = s ∧ r.Before later ∧ P later

/-- All nodes and conditions of the log are in the registry. -/
structure Holds (r : Registry) (log : Log) : Prop where
  conditions : ∀ c ∈ log.newestFirst, c ∈ r.conditions
  nodes : ∀ part : Log, part.Begins log → part = .empty ∨ part ∈ r.logs

namespace Holds

theorem empty (r : Registry) : r.Holds .empty where
  conditions _ hc := absurd hc List.not_mem_nil
  nodes _ hpart := .inl (Chain.begins_empty hpart)

theorem grow (h : r.Holds log) (hb : r.Grows later) : later.Holds log where
  conditions c hc := hb.conditions (h.conditions c hc)
  nodes part hpart := (h.nodes part hpart).imp_right fun hmem => hb.logs hmem

theorem part (h : r.Holds log) {start : Log} (begins : start.Begins log) : r.Holds start where
  conditions c hc := h.conditions c (begins.subset hc)
  nodes part hpart := h.nodes part (hpart.trans begins)

theorem measured (h : r.Holds log) : log.Measured := by
  rcases h.nodes log .refl with rfl | hmem
  · trivial
  · exact r.measured log hmem

/-- Logs that end in one node are one log. -/
theorem eq_of_node? (h : r.Holds log) {other : Log} (hother : r.Holds other)
    (same : log.node? = other.node?) : log = other := by
  rcases h.nodes log .refl with rfl | hlog
  · cases other with
    | empty => rfl
    | link => cases same
  · rcases hother.nodes other .refl with rfl | hother
    · obtain ⟨n, -, hn⟩ := r.nodes log hlog
      cases hn.symm.trans same
    · exact r.numbered log hlog other hother same

/-- If one log was grown from another, as it seems by the numbers of nodes, then it was. -/
theorem begins_of_grownFrom (h : r.Holds log) {start : Log} (hstart : r.Holds start)
    (grown : log.grownFrom start = true) : start.Begins log := by
  have begins := Chain.beginning_begins start.length log
  have same : log.beginning start.length = start :=
    (h.part begins).eq_of_node? hstart (beq_iff_eq.1 grown)
  rwa [same] at begins

theorem grownFrom_iff_begins (h : r.Holds log) {start : Log} (hstart : r.Holds start) :
    log.grownFrom start = true ↔ start.Begins log :=
  ⟨h.begins_of_grownFrom hstart, fun begins => begins.grownFrom h.measured⟩

end Holds

/-- All nodes and conditions of the log are in the registry, and no condition is there twice. -/
structure Files (r : Registry) (log : Log) : Prop where
  conditions : ∀ c ∈ log.newestFirst, c ∈ r.conditions
  nodes : ∀ part : Log, part.Begins log → part = .empty ∨ part ∈ r.logs
  distinct : log.oldestFirst.Pairwise fun c d => c.id ≠ d.id

namespace Files

theorem holds (h : r.Files log) : r.Holds log := ⟨h.conditions, h.nodes⟩

theorem empty (r : Registry) : r.Files .empty where
  conditions _ hc := absurd hc List.not_mem_nil
  nodes _ hpart := .inl (Chain.begins_empty hpart)
  distinct := List.Pairwise.nil

theorem grow (h : r.Files log) (hb : r.Grows later) : later.Files log where
  conditions c hc := hb.conditions (h.conditions c hc)
  nodes part hpart := (h.nodes part hpart).imp_right fun hmem => hb.logs hmem
  distinct := h.distinct

theorem mono (h : r.Files log) (hb : r.Before later) : later.Files log := h.grow hb.toGrows

theorem measured (h : r.Files log) : log.Measured := h.holds.measured

end Files

/-! ## Drawing -/

/-- What tells elements apart still does so with a new one among them. -/
theorem eq_of_cons {α β : Type} {f : α → β} {new : α} {as : List α}
    (h : ∀ a ∈ as, ∀ b ∈ as, f a = f b → a = b) (hnew : ∀ a ∈ as, f a ≠ f new) :
    ∀ a ∈ new :: as, ∀ b ∈ new :: as, f a = f b → a = b := by
  intro a ha b hb heq
  rcases List.mem_cons.1 ha with rfl | hold
  · rcases List.mem_cons.1 hb with rfl | hold'
    · rfl
    · exact absurd heq.symm (hnew b hold')
  · rcases List.mem_cons.1 hb with rfl | hold'
    · exact absurd heq (hnew a hold)
    · exact h a hold b hold' heq

/-- Other conditions and nodes may be made at any time. -/
theorem exists_of_onward (r : Registry) {s : Supply} (h : r.supply.Onward s) :
    ∃ later : Registry, later.supply = s ∧ r.Grows later := by
  refine ⟨{ r with
    supply := s
    drawn := fun c hc => ?_
    nodes := fun log hlog => ?_ }, rfl, ⟨List.Subset.refl _, List.Subset.refl _⟩⟩
  · obtain ⟨n, hn, hid⟩ := r.drawn c hc
    exact ⟨n, Nat.lt_of_lt_of_le hn h.drawn, by rw [hid, h.idOf]⟩
  · obtain ⟨n, hn, hnode⟩ := r.nodes log hlog
    exact ⟨n, Nat.lt_of_lt_of_le hn h.nextNode, hnode⟩

/-- Other numbers may be used up at any time. -/
theorem exists_of_before (r : Registry) {s : Supply} (h : r.supply.Before s) :
    ∃ later : Registry, later.supply = s ∧ r.Before later := by
  obtain ⟨later, rfl, grows⟩ := r.exists_of_onward h.onward
  exact ⟨later, rfl, grows, fun id hid => Nat.le_trans hid (h.created id.scope)⟩

theorem reaches_create {factory : Factory} {base : String} {type : VariableType} {v : Variable}
    {s : Supply} (h : (factory.create base type).Yields r.supply v s) :
    r.Reaches s fun _ => Fresh r.supply s [v] ∧ v.type = type := by
  obtain ⟨hv, hs⟩ := Prod.mk.inj (Build.modifyGet_yields.1 h)
  have index : v.id = ⟨factory.scope, r.supply.created factory.scope + 1⟩ := by
    rw [← hv]
  have created : ∀ scope, s.created scope =
      if scope = factory.scope then r.supply.created factory.scope + 1
      else r.supply.created scope := by
    intro scope
    rw [← hs]
  have fresh : Fresh r.supply s [v] := by
    refine ⟨List.nodup_singleton _, fun w hw => ?_, fun w hw => ?_⟩
    · rw [List.mem_singleton.1 hw, Supply.Used, index]
      exact Nat.not_succ_le_self _
    · rw [List.mem_singleton.1 hw, Supply.Used, index, created, if_pos rfl]
  have before : r.supply.Before s := by
    refine ⟨by rw [← hs], by rw [← hs], by rw [← hs], fun scope => ?_⟩
    rw [created]
    by_cases heq : scope = factory.scope
    · rw [if_pos heq, heq]
      exact Nat.le_succ _
    · rw [if_neg heq]
  obtain ⟨later, hlater, before⟩ := r.exists_of_before before
  exact ⟨later, hlater, before, fresh, by rw [← hv]⟩

/-- A condition is made of the next id and of conditions that were made before. -/
theorem reaches_drawId {id : Nat} {s : Supply} (h : drawId.Yields r.supply id s)
    (hid : c.id = id) (hparts : ∀ d ∈ c.parts, d = c ∨ d ∈ r.conditions) :
    r.Reaches s fun later => c ∈ later.conditions ∧
      ∀ d ∈ r.conditions, d.id ≠ c.id := by
  obtain ⟨rfl, rfl⟩ := Prod.mk.inj (Build.modifyGet_yields.1 h)
  have other : ∀ d ∈ r.conditions, d.id ≠ c.id := by
    intro d hd heq
    obtain ⟨n, hn, hdn⟩ := r.drawn d hd
    have same := r.supply.idOf_injective n r.supply.drawn (by rw [← hdn, heq, hid])
    omega
  refine ⟨{ r with
    supply := { r.supply with drawn := r.supply.drawn + 1 }
    conditions := c :: r.conditions
    drawn := fun d hd => ?_
    identified := eq_of_cons r.identified other
    parts := fun d hd part hpart => ?_ }, rfl,
    ⟨⟨List.subset_cons_self _ _, List.Subset.refl _⟩, fun _ hused => hused⟩, List.mem_cons_self,
    other⟩
  · rcases List.mem_cons.1 hd with rfl | hd
    · exact ⟨r.supply.drawn, Nat.lt_succ_self _, hid⟩
    · obtain ⟨n, hn, hdn⟩ := r.drawn d hd
      exact ⟨n, Nat.lt_succ_of_lt hn, hdn⟩
  · rcases List.mem_cons.1 hd with rfl | hd
    · rcases hparts part hpart with rfl | hpart
      · exact List.mem_cons_self
      · exact List.mem_cons_of_mem _ hpart
    · exact List.mem_cons_of_mem _ (r.parts d hd part hpart)

/-! ## Logs -/

/-- Room for one more node. -/
theorem reaches_node (h : r.Holds log) (hc : c ∈ r.conditions) :
    r.Reaches { r.supply with nextNode := r.supply.nextNode + 1 } fun later =>
      later.Holds (Chain.append log r.supply.nextNode c) := by
  have other : ∀ l ∈ r.logs, l.node? ≠ some r.supply.nextNode := by
    intro l hl heq
    obtain ⟨n, hn, hnode⟩ := r.nodes l hl
    have same := Option.some.inj (hnode.symm.trans heq)
    omega
  refine ⟨{ r with
    supply := { r.supply with nextNode := r.supply.nextNode + 1 }
    logs := Chain.append log r.supply.nextNode c :: r.logs
    nodes := fun l hl => ?_
    numbered := eq_of_cons r.numbered other
    measured := fun l hl => ?_ }, rfl,
    ⟨⟨List.Subset.refl _, List.subset_cons_self _ _⟩, fun _ hused => hused⟩, ⟨?_, ?_⟩⟩
  · rcases List.mem_cons.1 hl with rfl | hl
    · exact ⟨r.supply.nextNode, Nat.lt_succ_self _, rfl⟩
    · obtain ⟨n, hn, hnode⟩ := r.nodes l hl
      exact ⟨n, Nat.lt_succ_of_lt hn, hnode⟩
  · rcases List.mem_cons.1 hl with rfl | hl
    · exact ⟨rfl, h.measured⟩
    · exact r.measured l hl
  · intro d hd
    rcases List.mem_cons.1 hd with rfl | hd
    · exact hc
    · exact h.conditions d hd
  · intro part hpart
    rcases Chain.begins_link hpart with rfl | hpart
    · exact .inr List.mem_cons_self
    · exact (h.nodes part hpart).imp_right (List.mem_cons_of_mem _)

/-- The same without repeating a condition. -/
theorem reaches_link (h : r.Files log) (hc : c ∈ r.conditions)
    (hnew : ∀ d ∈ log.newestFirst, d.id ≠ c.id) :
    r.Reaches { r.supply with nextNode := r.supply.nextNode + 1 } fun later =>
      later.Files (Chain.append log r.supply.nextNode c) := by
  obtain ⟨later, hlater, before, holds⟩ := reaches_node h.holds hc
  refine ⟨later, hlater, before, holds.conditions, holds.nodes, ?_⟩
  rw [Chain.oldestFirst_append, List.pairwise_append]
  refine ⟨h.distinct, List.pairwise_singleton _ _, fun d hd d' hd' => ?_⟩
  rw [List.mem_singleton.1 hd']
  exact hnew d (Chain.mem_oldestFirst.1 hd)

theorem reaches_nodes {cs : List Condition} (h : r.Holds log) (hcs : ∀ c ∈ cs, c ∈ r.conditions) :
    r.Reaches { r.supply with nextNode := r.supply.nextNode + cs.length } fun later =>
      later.Holds (log.grow r.supply.nextNode cs) := by
  induction cs generalizing r log with
  | nil => exact ⟨r, rfl, .refl r, h⟩
  | cons c cs ih =>
    obtain ⟨hc, hcs⟩ := List.forall_mem_cons.1 hcs
    obtain ⟨middle, hmiddle, before, holds⟩ := reaches_node h hc
    obtain ⟨later, hlater, before', holds'⟩ := ih holds fun d hd => before.conditions (hcs d hd)
    rw [hmiddle] at hlater holds'
    refine ⟨later, hlater.trans ?_, before.trans before', holds'⟩
    rw [List.length_cons, Nat.add_comm cs.length 1, ← Nat.add_assoc]

theorem reaches_grow {cs : List Condition} (h : r.Files log) (hcs : ∀ c ∈ cs, c ∈ r.conditions)
    (hdistinct : (log.oldestFirst ++ cs).Pairwise fun c d => c.id ≠ d.id) :
    r.Reaches { r.supply with nextNode := r.supply.nextNode + cs.length } fun later =>
      later.Files (log.grow r.supply.nextNode cs) := by
  obtain ⟨later, hlater, before, holds⟩ := reaches_nodes h.holds hcs
  refine ⟨later, hlater, before, holds.conditions, holds.nodes, ?_⟩
  rwa [Chain.oldestFirst_grow]

theorem reaches_append {log' : Log} {s : Supply} (h : (Log.append log c).Yields r.supply log' s)
    (hlog : r.Files log) (hc : c ∈ r.conditions) (hnew : ∀ d ∈ log.newestFirst, d.id ≠ c.id) :
    r.Reaches s fun later => later.Files log' ∧ log.Begins log' ∧
      log'.oldestFirst = log.oldestFirst ++ [c] := by
  obtain ⟨rfl, rfl⟩ := Prod.mk.inj (Build.modifyGet_yields.1 h)
  obtain ⟨later, hlater, before, files⟩ := reaches_link hlog hc hnew
  exact ⟨later, hlater, before, files, .link .refl, Chain.oldestFirst_append _ _ _⟩

theorem reaches_newStep {step : Step} {s : Supply} (h : (newStep step).Yields r.supply c s) :
    r.Reaches s fun later => c ∈ later.conditions ∧
      c.Does step ∧ ∀ d ∈ r.conditions, d.id ≠ c.id := by
  obtain ⟨id, middle, hdraw, h⟩ := Build.bind_yields.1 h
  obtain ⟨rfl, rfl⟩ := Build.pure_yields.1 h
  obtain ⟨later, hlater, before, hc, hnew⟩ := reaches_drawId (c := .step id step) hdraw rfl
    fun d hd => .inl (List.mem_singleton.1 hd)
  exact ⟨later, hlater, before, hc, ⟨id, rfl⟩, hnew⟩

/-- Conditions of the registry have only such conditions inside. -/
theorem partsAll_subset {cs : List Condition} (h : ∀ c ∈ cs, c ∈ r.conditions) :
    ∀ d ∈ Condition.partsAll cs, d ∈ r.conditions := by
  intro d hd
  obtain ⟨c, hc, hd⟩ := Condition.mem_partsAll.1 hd
  exact r.parts c (h c hc) d hd

/-- The input of a grouping is of conditions that were made before. -/
theorem reaches_newGroup {grouping : Grouping} {input : List Condition} {s : Supply}
    (h : (newGroup grouping input).Yields r.supply c s) (hinput : ∀ d ∈ input, d ∈ r.conditions) :
    r.Reaches s fun later => c ∈ later.conditions ∧ (∀ d ∈ r.conditions, d.id ≠ c.id) ∧
      ∃ id, c = .group id grouping input := by
  obtain ⟨id, middle, hdraw, h⟩ := Build.bind_yields.1 h
  obtain ⟨rfl, rfl⟩ := Build.pure_yields.1 h
  obtain ⟨later, hlater, before, hc, hnew⟩ :=
    reaches_drawId (c := .group id grouping input) hdraw rfl fun d hd =>
      (List.mem_cons.1 hd).imp_right (partsAll_subset hinput d)
  exact ⟨later, hlater, before, hc, hnew, id, rfl⟩

theorem reaches_appendSteps {steps : List Step} {log' : Log} {s : Supply}
    (h : (Log.appendSteps log steps).Yields r.supply log' s) (hlog : r.Files log) :
    r.Reaches s fun later => later.Files log' ∧ log.Begins log' ∧
      ∃ cs, log'.oldestFirst = log.oldestFirst ++ cs ∧ List.Forall₂ Condition.Does cs steps := by
  induction steps generalizing r log with
  | nil =>
    obtain ⟨rfl, rfl⟩ := Build.pure_yields.1 h
    exact ⟨r, rfl, .refl r, hlog, .refl, [], (List.append_nil _).symm, .nil⟩
  | cons step steps ih =>
    obtain ⟨c, s₁, hmake, h⟩ := Build.bind_yields.1 h
    obtain ⟨grown, s₂, happend, h⟩ := Build.bind_yields.1 h
    obtain ⟨r₁, rfl, before₁, hc, does, hnew⟩ := reaches_newStep hmake
    obtain ⟨r₂, rfl, before₂, files₂, begins₂, conditions₂⟩ :=
      reaches_append happend (hlog.mono before₁) hc fun d hd => hnew d (hlog.conditions d hd)
    obtain ⟨later, hlater, before, files, begins, cs, conditions, all_does⟩ := ih h files₂
    refine ⟨later, hlater, before₁.trans (before₂.trans before), files, begins₂.trans begins,
      c :: cs, ?_, .cons does all_does⟩
    rw [conditions, conditions₂, List.append_assoc, List.singleton_append]

theorem reaches_appendStep {step : Step} {log' : Log} {s : Supply}
    (h : (Log.appendSteps log [step]).Yields r.supply log' s) (hlog : r.Files log) :
    r.Reaches s fun later => later.Files log' ∧ log.Begins log' ∧
      ∃ c : Condition, c.Does step ∧ log'.oldestFirst = log.oldestFirst ++ [c] := by
  obtain ⟨later, hlater, before, files, begins, cs, conditions, does⟩ :=
    reaches_appendSteps h hlog
  obtain ⟨c, hc, rfl⟩ := Condition.Does.of_singleton does
  exact ⟨later, hlater, before, files, begins, c, hc, conditions⟩

/-- The union of logs that grow from left to right is the last of them. -/
theorem eq_of_union_growing {logs : List Log} {s : Supply} {union : Log}
    (h : (Log.union (logs ++ [log])).Yields r.supply union s)
    (growing : (logs ++ [log]).Pairwise Chain.Begins) (hlog : r.Holds log) :
    union = log ∧ s = r.supply := by
  have same := Build.modifyGet_yields.1 h
  rw [Chain.union_growing growing hlog.measured] at same
  obtain ⟨hunion, hs⟩ := Prod.mk.inj same
  exact ⟨hunion.symm, hs.symm⟩

/-- The union of logs without a common condition is one after the other. -/
theorem reaches_union_apart {other union : Log} {s : Supply}
    (h : (Log.union [log, other]).Yields r.supply union s) (hlog : r.Files log)
    (hother : r.Files other) (hne : log.newestFirst ≠ []) (hne' : other.newestFirst ≠ [])
    (apart : ∀ c ∈ log.newestFirst, c ∉ other.newestFirst) :
    r.Reaches s fun later => later.Files union ∧
      log.Begins union ∧ union.oldestFirst = log.oldestFirst ++ other.oldestFirst := by
  have ids : ∀ c ∈ log.newestFirst, ∀ d ∈ other.newestFirst, c.id ≠ d.id := by
    intro c hc d hd heq
    rw [r.identified c (hlog.conditions c hc) d (hother.conditions d hd) heq] at hc
    exact apart d hc hd
  have not_grown : other.grownFrom log = false := by
    rw [Bool.eq_false_iff]
    intro hgrown
    obtain ⟨c, hc⟩ := List.exists_mem_of_ne_nil _ hne
    exact apart c hc ((hother.holds.begins_of_grownFrom hlog.holds hgrown).subset hc)
  have not_grown' : log.grownFrom other = false := by
    rw [Bool.eq_false_iff]
    intro hgrown
    obtain ⟨c, hc⟩ := List.exists_mem_of_ne_nil _ hne'
    exact apart c ((hlog.holds.begins_of_grownFrom hother.holds hgrown).subset hc) hc
  have same := Build.modifyGet_yields.1 h
  rw [Chain.union_apart hlog.measured not_grown not_grown'
    (fun c hc d hd => Condition.beq_eq_false (ids c hc d hd))
    (hother.distinct.imp Condition.beq_eq_false)] at same
  obtain ⟨rfl, rfl⟩ := Prod.mk.inj same
  obtain ⟨later, hlater, before, files⟩ := reaches_grow hlog
    (fun d hd => hother.conditions d (Chain.mem_oldestFirst.1 hd))
    (List.pairwise_append.2 ⟨hlog.distinct, hother.distinct, fun c hc d hd =>
      ids c (Chain.mem_oldestFirst.1 hc) d (Chain.mem_oldestFirst.1 hd)⟩)
  exact ⟨later, hlater, before, files, Chain.begins_grow _ _ _, Chain.oldestFirst_grow _ _ _⟩

end Registry

end MatchAlgebra
