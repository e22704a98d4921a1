import MatchAlgebra.Proofs.Failures
import MatchAlgebra.Proofs.Slots

/-!
# Variables of an expression

An expression mentions the variables of its slots and those in its conditions: the ones that they
bind, read or search with, in the inputs of groupings too.  Logs that are merged mention no more
than they did, and a step adds what it mentions itself:

    log'.mentioned = log.mentioned ++ steps.flatMap (·.mentions)         (mentioned_of_appendSteps)
-/

namespace MatchAlgebra

/-! ## What is mentioned -/

def Step.mentions : Step → List Variable
  | .existence test => test.candidate :: test.inputs
  | s => s.binds ++ s.reads

/-- The variables in a condition, its input apart. -/
def Condition.mentions : Condition → List Variable
  | .step _ s => s.mentions
  | .group _ grouping _ => grouping.binds ++ grouping.readsInside

def Log.mentioned (log : Log) : List Variable :=
  (Condition.partsAll log.oldestFirst).flatMap Condition.mentions

def Slot.mentioned (slot : Slot) : List Variable := slot.bound :: slot.log.mentioned

/-- The variables in the slots and in the context. -/
def Expression.mentioned (e : Expression) : List Variable :=
  e.slots.flatMap Slot.mentioned ++ (e.visible ++ e.log.mentioned)

/-! ## Logs -/

section

variable {log log' full : Log} {logs : List Log} {s s' : Supply}

theorem Condition.Does.flatMap_mentions {cs : List Condition} {steps : List Step}
    (h : List.Forall₂ Condition.Does cs steps) :
    cs.flatMap Condition.mentions = steps.flatMap Step.mentions := by
  induction h with
  | nil => rfl
  | cons does _ ih =>
    obtain ⟨id, rfl⟩ := does
    rw [List.flatMap_cons, List.flatMap_cons, ih]
    rfl

/-- A log mentions what the log mentions that it was grown from, and what has come since. -/
theorem Log.mentioned_of_conditions {cs : List Condition}
    (h : log'.oldestFirst = log.oldestFirst ++ cs) :
    log'.mentioned = log.mentioned ++ (Condition.partsAll cs).flatMap Condition.mentions := by
  rw [mentioned, h, Condition.partsAll_append, List.flatMap_append, mentioned]

theorem Log.mentioned_of_appendSteps {steps : List Step}
    (h : (appendSteps log steps).Yields s log' s') :
    log'.mentioned = log.mentioned ++ steps.flatMap Step.mentions := by
  obtain ⟨cs, conditions, does⟩ := appendSteps_yields h
  rw [mentioned_of_conditions conditions, Condition.Does.partsAll does,
    Condition.Does.flatMap_mentions does]

theorem Log.mentioned_of_append {c : Condition} (h : (append log c).Yields s log' s') :
    log'.mentioned = log.mentioned ++ c.parts.flatMap Condition.mentions := by
  obtain ⟨rfl, -⟩ := Prod.mk.inj (Build.modifyGet_yields.1 h)
  rw [mentioned_of_conditions (Chain.oldestFirst_append log _ c), Condition.partsAll,
    Condition.partsAll, List.append_nil]

theorem Log.mentioned_subset_of_begins (h : log.Begins full) : log.mentioned ⊆ full.mentioned := by
  obtain ⟨rest, hrest⟩ := h.isPrefix
  rw [mentioned_of_conditions hrest.symm]
  exact List.subset_append_left _ _

/-! ### Unions -/

theorem Chain.Growth.mem_foldl_add {α : Type} [BEq α] {g : Growth α} {as : List α} {a : α}
    (h : a ∈ (as.foldl add g).chain.newestFirst) : a ∈ g.chain.newestFirst ∨ a ∈ as := by
  induction as generalizing g with
  | nil => exact .inl h
  | cons b as ih =>
    rcases ih h with h | h
    · rw [add] at h
      split at h
      · exact .inl h
      · exact (List.mem_cons.1 h).elim (fun heq => .inr (heq ▸ List.mem_cons_self)) .inl
    · exact .inr (List.mem_cons_of_mem b h)

theorem Chain.Growth.mem_merge {α : Type} [BEq α] {g : Growth α} {c : Chain α} {a : α}
    (h : a ∈ (g.merge c).chain.newestFirst) : a ∈ g.chain.newestFirst ∨ a ∈ c.newestFirst := by
  rw [merge] at h
  split at h
  · exact .inr h
  · split at h
    · exact .inl h
    · exact (mem_foldl_add h).imp_right Chain.mem_oldestFirst.1

/-- Whatever is shared or skipped, a union has only elements of its chains. -/
theorem Chain.mem_of_mem_union {α : Type} [BEq α] {chains : List (Chain α)} {next : Nat} {a : α}
    (h : a ∈ (union chains next).1.newestFirst) : ∃ c ∈ chains, a ∈ c.newestFirst := by
  suffices merged : ∀ g : Growth α, a ∈ (chains.foldl Growth.merge g).chain.newestFirst →
      a ∈ g.chain.newestFirst ∨ ∃ c ∈ chains, a ∈ c.newestFirst from
    (merged _ h).resolve_left List.not_mem_nil
  clear h
  induction chains with
  | nil => exact fun g h => .inl h
  | cons c chains ih =>
    intro g h
    rcases ih _ h with h | ⟨d, hd, h⟩
    · exact (Growth.mem_merge h).imp_right fun h => ⟨c, List.mem_cons_self, h⟩
    · exact .inr ⟨d, List.mem_cons_of_mem c hd, h⟩

theorem Log.mentioned_subset_of_union (h : (union logs).Yields s log' s') :
    log'.mentioned ⊆ logs.flatMap Log.mentioned := by
  obtain ⟨rfl, -⟩ := Prod.mk.inj (Build.modifyGet_yields.1 h)
  intro v hv
  obtain ⟨d, hd, hv⟩ := List.mem_flatMap.1 hv
  obtain ⟨c, hc, hd⟩ := Condition.mem_partsAll.1 hd
  obtain ⟨log, hlog, hc⟩ := Chain.mem_of_mem_union (Chain.mem_oldestFirst.1 hc)
  refine List.mem_flatMap.2 ⟨log, hlog, List.mem_flatMap.2 ⟨d, ?_, hv⟩⟩
  exact Condition.mem_partsAll.2 ⟨c, Chain.mem_oldestFirst.2 hc, hd⟩

end

/-! ## Slots -/

namespace Expression

variable {e e' : Expression} {s s' : Supply}

/-- A context that is in step mentions nothing beyond the slots. -/
theorem InStep.mem_mentioned (h : e.InStep) (v : Variable) :
    v ∈ e.mentioned ↔ v ∈ e.slots.flatMap Slot.mentioned := by
  refine ⟨fun hv => ?_, List.mem_append_left _⟩
  rcases List.mem_append.1 hv with hv | hv
  · exact hv
  rcases List.mem_append.1 hv with hv | hv
  · rw [h.visible] at hv
    obtain ⟨slot, hslot, rfl⟩ := List.mem_map.1 hv
    exact List.mem_flatMap.2 ⟨slot, hslot, List.mem_cons_self⟩
  · rw [h.log] at hv
    have last : e.last ∈ e.slots := List.mem_append_right _ List.mem_cons_self
    exact List.mem_flatMap.2 ⟨e.last, last, List.mem_cons_of_mem _ hv⟩

theorem mem_mentioned_of_ofSlots {slots : List Slot} (h : ofSlots slots = .ok e) (v : Variable) :
    v ∈ e.mentioned ↔ v ∈ slots.flatMap Slot.mentioned := by
  rw [(inStep_ofSlots h).mem_mentioned, ofSlots_eq_ok h]

theorem mem_mentioned_ofSlot (bound : Variable) (log : Log) (v : Variable) :
    v ∈ (ofSlot ⟨bound, log⟩).mentioned ↔ v ∈ bound :: log.mentioned := by
  rw [(inStep_ofSlot _).mem_mentioned]
  show v ∈ [Slot.mk bound log].flatMap Slot.mentioned ↔ _
  rw [List.flatMap_singleton]
  rfl

theorem slots_subset (e : Expression) : e.slots.flatMap Slot.mentioned ⊆ e.mentioned :=
  List.subset_append_left _ _

theorem visible_subset (e : Expression) : e.visible ⊆ e.mentioned :=
  List.subset_append_of_subset_right _ (List.subset_append_left _ _)

theorem log_subset (e : Expression) : e.log.mentioned ⊆ e.mentioned :=
  List.subset_append_of_subset_right _ (List.subset_append_right _ _)

theorem logs_subset (e : Expression) :
    (e.slots.map (·.log)).flatMap Log.mentioned ⊆ e.mentioned := by
  intro v hv
  rw [List.flatMap_map] at hv
  obtain ⟨slot, hslot, hv⟩ := List.mem_flatMap.1 hv
  exact e.slots_subset (List.mem_flatMap.2 ⟨slot, hslot, List.mem_cons_of_mem _ hv⟩)

theorem last_subset (e : Expression) : e.last.mentioned ⊆ e.mentioned := by
  intro v hv
  have last : e.last ∈ e.slots := List.mem_append_right _ List.mem_cons_self
  exact e.slots_subset (List.mem_flatMap.2 ⟨e.last, last, hv⟩)

/-- Slots that grow up to a log which mentions them all mention no more than it does. -/
theorem mem_mentioned_of_growing {start full : Log} {slots : List Slot}
    (h : ofSlots slots = .ok e) (growing : Growing start slots full)
    (bounds : slots.map (·.bound) ⊆ full.mentioned) (v : Variable) :
    v ∈ e.mentioned ↔ v ∈ full.mentioned := by
  constructor
  · intro hv
    obtain ⟨slot, hslot, hv⟩ := List.mem_flatMap.1 ((mem_mentioned_of_ofSlots h v).1 hv)
    rcases List.mem_cons.1 hv with rfl | hv
    · exact bounds (List.mem_map_of_mem hslot)
    · exact Log.mentioned_subset_of_begins (growing.begins_of_mem slot hslot) hv
  · rw [← (growing_of_ofSlots h growing).1]
    exact fun hv => e.log_subset hv

/-- A condition is put into the last slot; the context takes over its variables and has the log of
that slot. -/
theorem mem_mentioned_of_require {step : Step} (h : (e.require step).Yields s e' s')
    (v : Variable) : v ∈ e'.mentioned ↔
      v ∈ e.slots.flatMap Slot.mentioned ++ e.visible ++ step.mentions := by
  obtain ⟨grown, s₁, happend, h⟩ := Build.bind_yields.1 h
  obtain ⟨rfl, -⟩ := Build.pure_yields.1 h
  have mentioned : grown.mentioned = e.last.log.mentioned ++ step.mentions := by
    rw [Log.mentioned_of_appendSteps happend, List.flatMap_singleton]
  simp only [Expression.mentioned, slots, log, List.flatMap_append,
    List.flatMap_singleton, Slot.mentioned, mentioned, visible, List.mem_append, List.mem_cons]
  grind

end Expression

end MatchAlgebra
