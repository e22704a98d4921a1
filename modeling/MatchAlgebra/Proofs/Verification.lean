import MatchAlgebra.Proofs.Bindings
import MatchAlgebra.Proofs.Built

/-!
# The algebra only makes verified plans

Verification accepts conditions that are scoped, and gives back what they bind.  Terms are laid out
in scoped conditions, so the plan of every expression is verified:

    LooselyBuilt s es  →  (t, e) ∈ es  →  (e.toPlan w).verify = .ok ()    (Expression.verify_toPlan)

This does not rest on fresh variables.  A condition reads the variables of the expression that it
was made for, and these are bound before it even if some other condition binds them once more.
-/

namespace MatchAlgebra

/-! ## Verification accepts scoped conditions -/

namespace Condition

/-- What is bound after conditions, the latest first. -/
def boundAfter (bound : List Variable) (cs : List Condition) : List Variable :=
  cs.foldl (fun bound c => c.binds ++ bound) bound

theorem mem_boundAfter {bound : List Variable} {cs : List Condition} {v : Variable} :
    v ∈ boundAfter bound cs ↔ v ∈ cs.flatMap binds ∨ v ∈ bound := by
  induction cs generalizing bound with
  | nil => simp [boundAfter]
  | cons c cs ih =>
    rw [boundAfter, List.foldl_cons, ← boundAfter, ih, List.mem_append, List.flatMap_cons,
      List.mem_append]
    tauto

mutual

theorem verify_eq_ok (bound : List Variable) (position : Nat) :
    ∀ c : Condition, (∀ d ∈ c.parts, d.ScopedInside) → (∀ v ∈ c.reads, v ∈ bound) →
      c.verify bound position = .ok (c.binds ++ bound)
  | .step id s, _, hreads => by
    have reads : requireBound bound position s.reads = .ok () :=
      requireBound_eq_ok_iff.2 fun v hv => contains_of_mem (hreads v hv)
    rw [verify, reads]
    rfl
  | .group id grouping input, h, _ => by
    obtain ⟨⟨order, bound_inside⟩, inside⟩ := forall_parts_group.1 h
    have inner := verifyAll_eq_ok [] 0 input inside fun before c after heq v hv =>
      .inl (order before c after heq v hv)
    have reads : requireBound (boundAfter [] input) position grouping.readsInside = .ok () :=
      requireBound_eq_ok_iff.2 fun v hv =>
        contains_of_mem (mem_boundAfter.2 (.inl (bound_inside v hv)))
    rw [verify, inner]
    show (do requireBound (boundAfter [] input) position grouping.readsInside; _) = _
    rw [reads]
    rfl

/-- Conditions pass if each reads what was bound at the start or by conditions before it. -/
theorem verifyAll_eq_ok (bound : List Variable) (position : Nat) :
    ∀ cs : List Condition, (∀ d ∈ partsAll cs, d.ScopedInside) →
      (∀ before c after, cs = before ++ c :: after →
        ∀ v ∈ c.reads, v ∈ before.flatMap binds ∨ v ∈ bound) →
      verifyAll bound position cs = .ok (boundAfter bound cs)
  | [], _, _ => rfl
  | c :: cs, h, order => by
    obtain ⟨hc, hcs⟩ := forall_partsAll_cons.1 h
    have first := verify_eq_ok bound position c hc fun v hv =>
      (order [] c cs rfl v hv).resolve_left List.not_mem_nil
    rw [verifyAll, first]
    refine verifyAll_eq_ok _ (position + 1) cs hcs fun before d after heq v hv => ?_
    have bound_before := order (c :: before) d after (by rw [heq, List.cons_append]) v hv
    rw [List.flatMap_cons, List.mem_append] at bound_before
    rw [List.mem_append]
    tauto

end

end Condition

theorem Plan.verify_of_isScoped {plan : Plan} (h : Condition.Scoped plan.conditions)
    (visible : ∀ v ∈ plan.visible, v ∈ plan.conditions.flatMap Condition.binds) :
    plan.verify = .ok () := by
  have bound := Condition.verifyAll_eq_ok [] 0 plan.conditions h.inside
    fun before c after heq v hv => .inl (h.order before c after heq v hv)
  rw [verify, bound]
  exact requireBound_eq_ok_iff.2 fun v hv =>
    contains_of_mem (Condition.mem_boundAfter.2 (.inl (visible v hv)))

/-! ## Plans of expressions -/

theorem Registry.Shapes.verify {r : Registry} {t : Term} {e : Expression} (h : r.Shapes t e)
    (w : Weigher) : (e.toPlan w).verify = .ok () :=
  Plan.verify_of_isScoped h.layout.isScoped h.layout.visible_bound

theorem LooselyBuilt.verify {s : Supply} {es : List (Term × Expression)} (built : LooselyBuilt s es)
    {t : Term} {e : Expression} (operand : (t, e) ∈ es) (w : Weigher) :
    (e.toPlan w).verify = .ok () := by
  obtain ⟨r, -, shapes⟩ := built.exists_registry
  exact (shapes _ operand).verify w

/-- **The algebra only makes verified plans.**  In the plan of an expression, and in the input of
every grouping inside it, each condition reads only what is bound before it, and all that can be
seen is bound. -/
theorem Expression.verify_toPlan {s : Supply} {es : List (Term × Expression)}
    (built : LooselyBuilt s es) {t : Term} {e : Expression} (operand : (t, e) ∈ es)
    (w : Weigher) :
    (e.toPlan w).verify = .ok () ∧ Condition.Scoped (e.toPlan w).conditions ∧
      ∀ v ∈ (e.toPlan w).visible, v ∈ (e.toPlan w).conditions.flatMap Condition.binds := by
  obtain ⟨r, -, shapes⟩ := built.exists_registry
  have layout := (shapes _ operand).layout
  exact ⟨(shapes _ operand).verify w, layout.isScoped, layout.visible_bound⟩

/-- A grouping made when the scopes of factories have come round: the source of the collectors takes
the variable of the facts. -/
theorem Expression.verify_toPlan_round :
    let request : GroupRequest := ⟨[valueAt 0], [⟨.count, valueAt 0⟩]⟩
    let t : Term := .groupBy (.forEach Sample.left) request
    let source : Variable := Sample.numbered "source" 1 (.tuple 1)
    let key : Variable := Sample.numbered "groupKey" 2 .value
    let total : Variable := Sample.numbered "result" 3 .value
    let group : Condition := .group 3
      ⟨[Sample.v], some source, some ⟨key, valueAt 0⟩, [⟨⟨.count, valueAt 0⟩, total⟩]⟩
      [Sample.first, .step 2 (.bind source [Sample.v] wholeTuple)]
    let log : Log := .link .empty 2 1 group
    let e : Expression := ⟨[⟨key, log⟩], ⟨total, log⟩, ⟨[key, total], log⟩⟩
    (∃ s es, LooselyBuilt s es ∧ (t, e) ∈ es) ∧ Sample.v.id = source.id ∧
      (e.toPlan .unit).verify = .ok () ∧ Condition.Scoped (e.toPlan .unit).conditions ∧
      ∀ v ∈ (e.toPlan .unit).visible, v ∈ (e.toPlan .unit).conditions.flatMap Condition.binds := by
  intro request t source key total group log e
  let again : Supply := { drawn := 1, nextNode := 1 }
  have round : Sample.afterFacts.Onward again := ⟨rfl, Nat.le_refl 1, Nat.le_refl 1⟩
  obtain ⟨s, groups⟩ : ∃ s, (Sample.facts.groupBy ⟨1⟩ request).Yields again e s := ⟨_, rfl⟩
  have built := ((LooselyBuilt.of_built Sample.built_facts).other round).operation
    (.groupBy (.head _) groups)
  exact ⟨⟨s, _, built, .head _⟩, rfl, verify_toPlan built (.head _) .unit⟩

end MatchAlgebra
