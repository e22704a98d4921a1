import MatchAlgebra.Proofs.Built

/-!
# The slots of an expression

An expression has one to four slots, whose logs grow from left to right up to the log of the
expression.  The context says the same of it: every operation writes it anew, and keeps it in step
with the slots (`Derives.inStep`).

All that is asked of the last log holds of the others, since each is a beginning of it: no condition
is there twice and no variable is bound twice.  So a change to a condition affects the slots from
some position on:

    Built s es  →  (t, e) ∈ es  →  e.affectedSlots c <:+ List.range e.degree      (slots_of_built)
-/

namespace MatchAlgebra

/-! ## Logs that grow -/

namespace Growing

variable {start full : Log} {slots : List Slot}

theorem begins_of_mem (h : Growing start slots full) :
    ∀ slot ∈ slots, slot.log.Begins full := by
  induction h with
  | nil => exact fun slot hslot => absurd hslot List.not_mem_nil
  | cons _ rest ih => exact List.forall_mem_cons.2 ⟨rest.begins, ih⟩

/-- Each log shows that it was grown from the one before it. -/
theorem all_grownFrom (h : Growing start slots full) (measured : full.Measured) :
    ((slots.zip (slots.drop 1)).all fun (earlier, later) => later.log.grownFrom earlier.log) =
      true := by
  induction h with
  | nil => rfl
  | cons _ rest ih =>
    cases rest with
    | nil => rfl
    | cons begins rest =>
      have grown := begins.grownFrom (rest.begins.measured measured)
      exact Bool.and_eq_true_iff.2 ⟨grown, ih measured⟩

end Growing

/-- Once a test holds in a list it goes on to hold, so the positions where it holds are the last
ones. -/
theorem positions_suffix {α : Type} {p : α → Bool} {as : List α} (n : Nat)
    (h : as.Pairwise fun a b => p a = true → p b = true) :
    ((as.zipIdx n).filter fun (a, _) => p a).map (·.2) <:+ List.range' n as.length := by
  induction as generalizing n with
  | nil => exact List.suffix_refl _
  | cons a as ih =>
    obtain ⟨ha, has⟩ := List.pairwise_cons.1 h
    rw [List.zipIdx_cons, List.filter_cons, List.length_cons, List.range'_succ]
    by_cases hp : p a = true
    · have all : (as.zipIdx (n + 1)).filter (fun (b, _) => p b) = as.zipIdx (n + 1) :=
        List.filter_eq_self.2 fun b hb => ha b.1 (List.fst_mem_of_mem_zipIdx hb) hp
      simp only [if_pos hp, all, List.map_cons, List.zipIdx_map_snd, List.suffix_refl]
    · rw [if_neg hp]
      exact (ih (n + 1) has).trans (List.suffix_cons _ _)

/-! ## Flattened terms -/

/-- The visible variables are different. -/
theorem Layout.nodup_visible {t : Term} {cs : List Condition} {vs : List Variable}
    (h : Layout t cs vs) (once : Condition.BindOnce cs) : (vs.map (·.id)).Nodup := by
  induction h with
  | forEach => exact List.nodup_singleton _
  | filter _ _ ih => exact ih once.left
  | join left_layout right_layout _ _ _ ihl ihr =>
    rw [List.map_append, List.nodup_append]
    refine ⟨ihl once.left.left, ihr once.left.right, ?_⟩
    rintro _ hid _ hid' rfl
    obtain ⟨v, hv, heq⟩ := List.mem_map.1 hid
    obtain ⟨w, hw, heq'⟩ := List.mem_map.1 hid'
    exact once.left.apart v (left_layout.visible_bound v hv) w (right_layout.visible_bound w hw)
      (heq.trans heq'.symm)
  | existence _ _ _ ih => exact ih once.left
  | map => exact List.nodup_singleton _
  | groupBy id _ _ _ packs _ _ _ => exact packs.nodup_visible rfl once

/-! ## The slots -/

/-- What holds of the slots of an expression, of their logs and of the context beside them. -/
structure Expression.WellSlotted (e : Expression) : Prop where
  degree_pos : 1 ≤ e.degree
  degree_le : e.degree ≤ 4
  grown : (e.slots.map (·.log)).Pairwise Chain.Begins
  in_order : e.slotsInOrder = true
  /-- the variables of the context are those of the slots, in their order -/
  visible : e.visible = e.slots.map (·.bound)
  different : (e.visible.map (·.id)).Nodup
  /-- the conditions of the context are those of the last slot -/
  log : e.slots.getLast?.map (·.log) = some e.log
  distinct : ∀ slot ∈ e.slots, slot.log.oldestFirst.Pairwise fun c d => c.id ≠ d.id
  once : ∀ slot ∈ e.slots, Condition.BindOnce slot.log.oldestFirst
  affected : ∀ c, e.affectedSlots c <:+ List.range e.degree

/-- The slots that depend on a condition are the last ones. -/
theorem Expression.affectedSlots_suffix {e : Expression}
    (grown : (e.slots.map (·.log)).Pairwise Chain.Begins) (c : Condition) :
    e.affectedSlots c <:+ List.range e.degree := by
  rw [affectedSlots, degree, List.range_eq_range']
  refine positions_suffix (p := fun slot => slot.dependsOn c) 0 ((List.pairwise_map.1 grown).imp ?_)
  intro earlier later begins
  rw [Slot.dependsOn, Slot.dependsOn, Chain.contains, Chain.contains, List.any_eq_true,
    List.any_eq_true]
  rintro ⟨d, hd, same⟩
  exact ⟨d, begins.subset hd, same⟩

theorem Registry.Stands.wellSlotted {r : Registry} {t : Term} {e : Expression}
    (h : r.Stands t e) : e.WellSlotted := by
  obtain ⟨inStep, files, growing, -, layout, once⟩ := h
  have grown := (List.pairwise_cons.1 growing.pairwise).2
  have start : ∀ slot ∈ e.slots, slot.log.oldestFirst <+: e.log.oldestFirst :=
    fun slot hslot => (growing.begins_of_mem slot hslot).isPrefix
  refine
    { degree_pos := ?_
      degree_le := inStep.length_visible ▸ layout.length_le
      grown
      in_order := growing.all_grownFrom files.measured
      visible := inStep.visible
      different := layout.nodup_visible once
      log := ?_
      distinct := fun slot hslot => files.distinct.sublist (start slot hslot).sublist
      once := fun slot hslot => ?_
      affected := Expression.affectedSlots_suffix grown }
  · rw [Expression.degree, Expression.slots, List.length_append]
    exact Nat.le_add_left _ _
  · rw [Expression.slots, List.getLast?_append_cons, inStep.log]
    rfl
  · obtain ⟨rest, heq⟩ := start slot hslot
    rw [← heq] at once
    exact once.left

/-- **The slots of an expression.**  Whatever operations an expression was made by, its slots and
their logs are as told. -/
theorem Expression.slots_of_built {s : Supply} {es : List (Term × Expression)}
    (built : Built s es) {t : Term} {e : Expression} (operand : (t, e) ∈ es) : e.WellSlotted := by
  obtain ⟨r, -, stands⟩ := built.exists_registry
  exact (stands _ operand).wellSlotted

/-- Two facts where they are equal: only the second slot depends on the second pattern. -/
theorem Expression.slots_of_built_join :
    let e : Expression := Sample.pairs (valueAt 0)
    (∃ s es, Built s es ∧ (Sample.pairing (valueAt 0), e) ∈ es) ∧ e.WellSlotted ∧
      e.affectedSlots Sample.second = [1] :=
  ⟨⟨_, _, Sample.built_pairs _, .head _⟩, slots_of_built (Sample.built_pairs _) (.head _), rfl⟩

end MatchAlgebra
