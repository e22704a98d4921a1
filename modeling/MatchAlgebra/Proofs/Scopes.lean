import MatchAlgebra.Proofs.Congruence

/-!
# Scopes of variables

What conditions must get right about variables, whatever the conditions are for.  They are scoped if
each reads only what is bound before it, and they bind once if no variable is bound twice.  The
input of a grouping starts a scope of its own, so both are asked of the inputs of groupings too, at
any depth.

Both are kept by what builds do to conditions: appending a step, putting one list after another, and
making a list the input of a grouping.
-/

namespace MatchAlgebra

namespace Condition

/-! ## Steps as conditions -/

/-- The condition is the step, whatever its id. -/
def Does (c : Condition) (s : Step) : Prop := ∃ id, c = .step id s

theorem Does.eq_of_mem {cs : List Condition} {steps : List Step} (h : List.Forall₂ Does cs steps)
    {c : Condition} (hc : c ∈ cs) : ∃ s ∈ steps, c.Does s := by
  induction h with
  | nil => cases hc
  | cons hd _ ih =>
    rcases List.mem_cons.1 hc with rfl | hc
    · exact ⟨_, List.mem_cons_self, hd⟩
    · obtain ⟨s, hs, hd⟩ := ih hc
      exact ⟨s, List.mem_cons_of_mem _ hs, hd⟩

theorem Does.flatMap_binds {cs : List Condition} {steps : List Step}
    (h : List.Forall₂ Does cs steps) : cs.flatMap binds = steps.flatMap Step.binds := by
  induction h with
  | nil => rfl
  | cons hd _ ih =>
    obtain ⟨id, rfl⟩ := hd
    rw [List.flatMap_cons, List.flatMap_cons, ih]
    rfl

/-- Steps have nothing inside. -/
theorem Does.partsAll {cs : List Condition} {steps : List Step}
    (h : List.Forall₂ Does cs steps) : Condition.partsAll cs = cs := by
  induction h with
  | nil => rfl
  | cons hd _ ih =>
    obtain ⟨id, rfl⟩ := hd
    rw [Condition.partsAll, parts, ih, List.singleton_append]

theorem Does.singleton {c : Condition} {s : Step} (h : c.Does s) : List.Forall₂ Does [c] [s] :=
  .cons h .nil

theorem Does.of_singleton {cs : List Condition} {s : Step} (h : List.Forall₂ Does cs [s]) :
    ∃ c, c.Does s ∧ cs = [c] := by
  rw [List.forall₂_cons_right_iff] at h
  obtain ⟨c, rest, does, none_left, rfl⟩ := h
  cases none_left
  exact ⟨c, does, rfl⟩

/-- What holds of the parts of conditions followed by steps. -/
theorem forall_partsAll_append_steps {P : Condition → Prop} {cs ds : List Condition}
    {steps : List Step} (h : List.Forall₂ Does ds steps) (hcs : ∀ d ∈ partsAll cs, P d)
    (hsteps : ∀ c s, s ∈ steps → c.Does s → P c) : ∀ d ∈ partsAll (cs ++ ds), P d := by
  rw [partsAll_append, Does.partsAll h]
  refine List.forall_mem_append.2 ⟨hcs, fun d hd => ?_⟩
  obtain ⟨s, hs, does⟩ := Does.eq_of_mem h hd
  exact hsteps d s hs does

/-! ## Scopes -/

/-- The variables that the input of a grouping must bind. -/
def readsInside : Condition → List Variable
  | .step _ _ => []
  | .group _ grouping _ => grouping.readsInside

/-- Each condition reads only what conditions before it bind. -/
def InOrder (cs : List Condition) : Prop :=
  ∀ before c after, cs = before ++ c :: after → ∀ v ∈ c.reads, v ∈ before.flatMap binds

/-- The input of a grouping is in order and binds all that the grouping reads of it. -/
structure ScopedInside (d : Condition) : Prop where
  order : InOrder d.input
  bound : ∀ v ∈ d.readsInside, v ∈ d.input.flatMap binds

/-- The conditions are in order, and so are the inputs of all groupings inside. -/
structure Scoped (cs : List Condition) : Prop where
  order : InOrder cs
  inside : ∀ d ∈ partsAll cs, d.ScopedInside

namespace InOrder

variable {cs ds : List Condition}

theorem nil : InOrder [] := by
  intro before c after h
  cases before <;> cases h

/-- Conditions may go on reading what was bound before them. -/
theorem append (h : InOrder cs) (hds : ∀ before c after, ds = before ++ c :: after →
    ∀ v ∈ c.reads, v ∈ (cs ++ before).flatMap binds) : InOrder (cs ++ ds) := by
  intro before c after heq v hv
  rcases List.append_eq_append_iff.1 heq with ⟨more, rfl, hds'⟩ | ⟨more, rfl, hmore⟩
  · exact hds more c after hds' v hv
  · cases more with
    | nil => simpa using hds [] c after hmore.symm v hv
    | cons d more =>
      obtain ⟨rfl, -⟩ := List.cons.inj hmore
      exact h before c more rfl v hv

theorem left (h : InOrder (cs ++ ds)) : InOrder cs := by
  rintro before c after rfl
  exact h before c (after ++ ds) (by rw [List.append_assoc, List.cons_append])

/-- All that is read is bound somewhere. -/
theorem closed (h : InOrder cs) : ∀ c ∈ cs, ∀ v ∈ c.reads, v ∈ cs.flatMap binds := by
  intro c hc v hv
  obtain ⟨before, after, rfl⟩ := List.append_of_mem hc
  rw [List.flatMap_append]
  exact List.mem_append_left _ (h before c after rfl v hv)

end InOrder

/-- A step has no input. -/
theorem Does.scopedInside {c : Condition} {s : Step} (h : c.Does s) : c.ScopedInside := by
  obtain ⟨id, rfl⟩ := h
  exact ⟨.nil, fun v hv => absurd hv List.not_mem_nil⟩

namespace Scoped

variable {cs ds : List Condition}

theorem nil : Scoped [] where
  order := .nil
  inside _ hd := absurd hd List.not_mem_nil

theorem append (h : Scoped cs) (h' : Scoped ds) : Scoped (cs ++ ds) where
  order := h.order.append fun before c after heq v hv => by
    rw [List.flatMap_append]
    exact List.mem_append_right _ (h'.order before c after heq v hv)
  inside := by
    rw [partsAll_append]
    exact List.forall_mem_append.2 ⟨h.inside, h'.inside⟩

/-- Steps after conditions may read what these bind. -/
theorem append_steps (h : Scoped cs) {steps : List Step} (does : List.Forall₂ Does ds steps)
    (hsteps : ∀ s ∈ steps, ∀ v ∈ s.reads, v ∈ cs.flatMap binds) : Scoped (cs ++ ds) where
  order := h.order.append fun before c after heq v hv => by
    obtain ⟨s, hs, id, rfl⟩ :=
      Does.eq_of_mem does (heq ▸ List.mem_append_right _ List.mem_cons_self)
    rw [List.flatMap_append]
    exact List.mem_append_left _ (hsteps s hs v hv)
  inside := forall_partsAll_append_steps does h.inside fun _ _ _ hc => hc.scopedInside

theorem snoc (h : Scoped cs) {c : Condition} {s : Step} (does : c.Does s)
    (hs : ∀ v ∈ s.reads, v ∈ cs.flatMap binds) : Scoped (cs ++ [c]) :=
  h.append_steps does.singleton (List.forall_mem_singleton.2 hs)

theorem group {input : List Condition} (h : Scoped input) (id : Nat) {grouping : Grouping}
    (hreads : ∀ v ∈ grouping.readsInside, v ∈ input.flatMap binds) :
    Scoped [.group id grouping input] where
  order := by
    intro before c after heq v hv
    have hc : c ∈ before ++ c :: after := List.mem_append_right _ List.mem_cons_self
    rw [← heq, List.mem_singleton] at hc
    rw [hc] at hv
    cases hv
  inside := forall_partsAll_cons.2
    ⟨forall_parts_group.2 ⟨⟨h.order, hreads⟩, h.inside⟩, fun _ hd => absurd hd List.not_mem_nil⟩

end Scoped

/-! ## Single assignment -/

/-- No variable is bound twice: neither by the conditions nor by the input of a grouping inside. -/
structure BindOnce (cs : List Condition) : Prop where
  here : ((cs.flatMap binds).map (·.id)).Nodup
  inside : ∀ d ∈ partsAll cs, ((d.input.flatMap binds).map (·.id)).Nodup

namespace BindOnce

variable {cs ds : List Condition}

theorem nil : BindOnce [] where
  here := List.nodup_nil
  inside _ hd := absurd hd List.not_mem_nil

theorem append_iff : BindOnce (cs ++ ds) ↔ BindOnce cs ∧ BindOnce ds ∧
    ∀ v ∈ cs.flatMap binds, ∀ w ∈ ds.flatMap binds, v.id ≠ w.id := by
  have here : (((cs ++ ds).flatMap binds).map (·.id)).Nodup ↔
      ((cs.flatMap binds).map (·.id)).Nodup ∧ ((ds.flatMap binds).map (·.id)).Nodup ∧
        ∀ v ∈ cs.flatMap binds, ∀ w ∈ ds.flatMap binds, v.id ≠ w.id := by
    rw [List.flatMap_append, List.map_append, List.nodup_append]
    simp only [List.mem_map, forall_exists_index, and_imp, forall_apply_eq_imp_iff₂]
  constructor
  · intro h
    obtain ⟨hcs, hds, apart⟩ := here.1 h.here
    have inside := h.inside
    rw [partsAll_append, List.forall_mem_append] at inside
    exact ⟨⟨hcs, inside.1⟩, ⟨hds, inside.2⟩, apart⟩
  · rintro ⟨hcs, hds, apart⟩
    refine ⟨here.2 ⟨hcs.here, hds.here, apart⟩, ?_⟩
    rw [partsAll_append]
    exact List.forall_mem_append.2 ⟨hcs.inside, hds.inside⟩

theorem left (h : BindOnce (cs ++ ds)) : BindOnce cs := (append_iff.1 h).1

theorem right (h : BindOnce (cs ++ ds)) : BindOnce ds := (append_iff.1 h).2.1

theorem apart (h : BindOnce (cs ++ ds)) :
    ∀ v ∈ cs.flatMap binds, ∀ w ∈ ds.flatMap binds, v.id ≠ w.id := (append_iff.1 h).2.2

theorem steps {steps : List Step} (does : List.Forall₂ Does cs steps)
    (hsteps : ((steps.flatMap Step.binds).map (·.id)).Nodup) : BindOnce cs where
  here := by rwa [Does.flatMap_binds does]
  inside := by
    rw [Does.partsAll does]
    intro d hd
    obtain ⟨s, -, id, rfl⟩ := Does.eq_of_mem does hd
    exact List.nodup_nil

/-- Steps after conditions bind other variables than these. -/
theorem append_steps (h : BindOnce cs) {steps : List Step} (does : List.Forall₂ Does ds steps)
    (hsteps : ((steps.flatMap Step.binds).map (·.id)).Nodup)
    (apart : ∀ v ∈ cs.flatMap binds, ∀ w ∈ steps.flatMap Step.binds, v.id ≠ w.id) :
    BindOnce (cs ++ ds) :=
  append_iff.2 ⟨h, .steps does hsteps, by rwa [Does.flatMap_binds does]⟩

theorem group_iff {id : Nat} {grouping : Grouping} {input : List Condition} :
    BindOnce [.group id grouping input] ↔
      (grouping.binds.map (·.id)).Nodup ∧ BindOnce input := by
  have here : [group id grouping input].flatMap binds = grouping.binds := List.append_nil _
  have inside : (∀ d ∈ partsAll [group id grouping input],
      ((d.input.flatMap binds).map (·.id)).Nodup) ↔ _ :=
    forall_partsAll_cons.trans (and_congr forall_parts_group Iff.rfl)
  constructor
  · intro h
    exact ⟨here ▸ h.here, ⟨(inside.1 h.inside).1.1, (inside.1 h.inside).1.2⟩⟩
  · rintro ⟨hbinds, hinput⟩
    exact ⟨here.symm ▸ hbinds, inside.2 ⟨⟨hinput.here, hinput.inside⟩,
      fun _ hd => absurd hd List.not_mem_nil⟩⟩

theorem group_cons_iff {id : Nat} {grouping : Grouping} {input : List Condition} :
    BindOnce (.group id grouping input :: cs) ↔
      ((grouping.binds.map (·.id)).Nodup ∧ BindOnce input) ∧ BindOnce cs ∧
        ∀ v ∈ grouping.binds, ∀ w ∈ cs.flatMap binds, v.id ≠ w.id := by
  rw [← List.singleton_append, append_iff, group_iff, List.flatMap_singleton]
  rfl

end BindOnce

end Condition

end MatchAlgebra
