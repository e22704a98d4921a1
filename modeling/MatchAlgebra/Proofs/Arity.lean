import MatchAlgebra.Proofs.Rebuilding
import MatchAlgebra.Proofs.SideBySide
import MatchAlgebra.Proofs.Stages

/-!
# Functions are given what they expect

The functions of a built plan are written for so many values, but nothing in a plan says so: filters
of pairs and of quadruples stand side by side in one log, and values go through source tuples,
packed keys and tests of pairs.  Still every evaluation hands to each function as many values as the
expression has that it was given to, in the order of the slots, and what is made of lists of another
length never shows (`arity_respected`).
-/

namespace MatchAlgebra

/-- Where the evaluation of a plan starts. -/
def Stage.start (session : Session) (plan : Plan) : Stage :=
  ⟨session.groups, [Row.empty], [], plan.conditions⟩

/-- What the evaluation of a built expression after a history keeps to.

Its conditions hand to the functions of an operation the variables of the slots of the operand, and
these are as many as the operand has values.  Every stage of the evaluation finds its rows as it
expects them, and the weigher gets the values of all slots.  Nothing changes if the expression, the
weigher and the plans of the history are built with functions that are altered on lists of other
lengths.  All of this holds on whatever tours the plan is evaluated. -/
structure Session.RespectsArity (limit : Nat) (history : List Request)
    (es : List (Term × Expression)) (t : Term) (e : Expression) (weigher : Weigher) : Prop where
  made : ∀ d ∈ Condition.partsAll e.log.oldestFirst, d.MadeBy es t
  degrees : ∀ p ∈ es, p.2.visible = p.2.slots.map (·.bound) ∧ p.2.visible.length = p.2.degree ∧
    p.2.degree = p.1.degree
  fits : let session := (start limit).run history
    ∀ visits stage, (Stage.start session (e.toPlan weigher)).Leads visits session.facts
      session.maxBindings stage → stage.Fits visits session.facts session.maxBindings
  weighs : let session := (start limit).run history
    ∀ visits store rows, (Stage.start session (e.toPlan weigher)).Leads visits session.facts
      session.maxBindings ⟨store, rows, e.log.oldestFirst, []⟩ →
      ∀ row ∈ rows, ∃ xs, row.Hands e.visible xs ∧
        xs.length = e.degree ∧ (e.toPlan weigher).matchOf row =
          .ok ⟨xs, weigher.weigh xs, HandleSet.ascending row.facts⟩
  altered : ∀ s ps, Rebuilt s ps → ∀ t' e', ((t, e), (t', e')) ∈ ps →
    ∀ weigher', weigher.AltersTo e.degree weigher' →
    ∀ history', List.Forall₂ Request.AltersTo history history' → ∀ visits,
      (((start limit).run history').evaluate (e'.toPlan weigher') visits).1 =
        (((start limit).run history).evaluate (e.toPlan weigher) visits).1

namespace Stage

/-- The evaluation of a built plan starts soundly after any history. -/
theorem sound_start {es : List (Term × Expression)} {t : Term} {e : Expression} {r : Registry}
    (stands : r.Stands t e) (made : e.MadeBy es t) (weigher : Weigher) (limit : Nat)
    {history : List Request} (identified : Condition.Identified
      (history.flatMap Request.conditions ++ (e.toPlan weigher).conditions)) :
    let pool := history.flatMap Request.conditions ++ (e.toPlan weigher).conditions
    let session := (Session.start limit).run history
    (start session (e.toPlan weigher)).Sound (Condition.collectorsIn pool) es t pool
      session.facts := by
  intro pool session
  have agrees : ∀ d ∈ Condition.partsAll pool, d.SelfAgrees (Condition.collectorsIn pool) :=
    fun d hd => identified.selfAgrees hd
  have keeps := Condition.keeps_good identified agrees
  refine ⟨?_, ⟨made, Condition.partsAll_subset_right _ _, stands.flat.layout.isScoped,
    stands.flat.once⟩, List.forall_mem_singleton.2 .empty⟩
  refine Session.keeps_run ⟨GroupStore.sound_empty, GroupStore.keyed_empty pool⟩ ?_
  intro request hrequest d hd
  exact keeps d (Request.mem_partsAll_of_asked _ request hrequest d hd)

end Stage

/-- **Arity and declared types are respected.**  Whatever the algebra builds, and whatever a session
was asked before, functions get as many values as they were written for and variables hold what they
are declared to hold. -/
theorem Session.arity_respected {s : Supply} {es : List (Term × Expression)} (built : Built s es)
    {t : Term} {e : Expression} (operand : (t, e) ∈ es) (weigher : Weigher) (limit : Nat)
    (history : List Request) (identified : Condition.Identified
      (history.flatMap Request.conditions ++ (e.toPlan weigher).conditions)) :
    RespectsArity limit history es t e weigher := by
  obtain ⟨r, -, stands⟩ := built.exists_registry
  have laid : ∀ p ∈ es, Layout p.1 p.2.log.oldestFirst p.2.visible :=
    fun p hp => (stands p hp).flat.layout
  have made := built.made_by _ operand
  have first := Stage.sound_start (stands _ operand) made weigher limit identified
  have agrees := fun d hd => identified.selfAgrees (d := d) hd
  refine
    { made
      degrees := fun p hp =>
        ⟨(stands p hp).inStep.visible, (stands p hp).inStep.length_visible, ?_⟩
      fits := fun visits stage leads => ?_
      weighs := fun visits store rows leads row hrow => ?_
      altered := fun s' ps rebuilt t' e' both weigher' agree history' earlier visits => ?_ }
  · rw [← (stands p hp).inStep.length_visible]
    exact (laid p hp).length_eq
  · exact (first.leads identified agrees leads).fits identified agrees laid
  · have last := first.leads identified agrees leads
    obtain ⟨xs, hxs⟩ := (last.typed row hrow).exists_hands (laid _ operand).visible_bound
    have length := (stands _ operand).inStep.length_visible
    refine ⟨xs, hxs, hxs.values.length_eq.symm.trans length, ?_⟩
    show row.read e.visible >>= _ = _
    rw [hxs.read]
    rfl
  · exact evaluate_altered limit earlier (rebuilt.toPlan both agree) identified visits

/-- Facts of two types joined where they are equal and summed up by value; between insertions the
plan is evaluated.  The functions are altered to give null for other lists than they expect. -/
theorem Session.arity_respected_grouped_join :
    let source : Variable := Sample.numbered "source" 3 (.tuple 2)
    let key : Variable := Sample.numbered "groupKey" 4 .value
    let total : Variable := Sample.numbered "result" 5 .value
    let request : (Nat → TupleFunction → TupleFunction) → GroupRequest := fun change =>
      ⟨[change 2 (valueAt 0)], [⟨.sum, change 2 (valueAt 1)⟩]⟩
    let term : (Nat → TupleFunction → TupleFunction) → Term := fun change =>
      .groupBy (Sample.pairing (change 1 (valueAt 0))) (request change)
    let log : (Nat → TupleFunction → TupleFunction) → Log := fun change =>
      .link .empty 5 1 (.group 5 ⟨[Sample.v, Sample.w], some source,
        some ⟨key, change 2 (valueAt 0)⟩, [⟨⟨.sum, change 2 (valueAt 1)⟩, total⟩]⟩
        [Sample.first, Sample.second, Sample.test (change 1 (valueAt 0)),
          .step 4 (.bind source [Sample.v, Sample.w] wholeTuple)])
    let e : (Nat → TupleFunction → TupleFunction) → Expression := fun change =>
      ⟨[⟨key, log change⟩], ⟨total, log change⟩, ⟨[key, total], log change⟩⟩
    let history : (Nat → TupleFunction → TupleFunction) → List Request := fun change =>
      [.insert Sample.left (.int 7), .insert Sample.right (.int 7),
        .evaluate ((e change).toPlan .unit) .descending, .insert Sample.right (.int 7)]
    let kept : Nat → TupleFunction → TupleFunction := fun _ f => f
    let altered : Nat → TupleFunction → TupleFunction := fun n f xs =>
      if xs.length = n then f xs else .null
    Condition.Identified
        ((history kept).flatMap Request.conditions ++ ((e kept).toPlan .unit).conditions) ∧
      (∃ s es, Built s es ∧ (term kept, e kept) ∈ es ∧
        RespectsArity 0 (history kept) es (term kept) (e kept) .unit) ∧
      (((start 0).run (history altered)).evaluate ((e altered).toPlan .unit)).1 =
        (((start 0).run (history kept)).evaluate ((e kept).toPlan .unit)).1 := by
  intro source key total request term log e history kept altered
  let afterGroups : Supply :=
    { created := fun scope => if scope = 1 then 5 else if scope = 1 then 4 else
        if scope = 1 then 3 else Sample.afterPairs.created scope
      drawn := 5
      nextNode := 6 }
  have groups : ∀ change, ((Sample.pairs (change 1 (valueAt 0))).groupBy ⟨1⟩
      (request change)).Yields Sample.afterPairs (e change) afterGroups := fun _ => rfl
  have agree : ∀ n f, AgreeAt n (kept n f) (altered n f) := fun n f xs length =>
    (if_pos length).symm
  have built := (Sample.built_pairs (valueAt 0)).groupBy (.head _) (groups kept)
  have request_alters : (request kept).AltersTo 2 (request altered) :=
    ⟨.cons (agree 2 _) .nil, .cons ⟨rfl, agree 2 _⟩ .nil⟩
  have joiners_alter : List.Forall₂ (Joiner.AltersTo 1)
      [.comparing .equal ⟨kept 1 (valueAt 0), id⟩]
      [.comparing .equal ⟨altered 1 (valueAt 0), id⟩] :=
    .cons (.comparing .equal id (agree 1 _)) .nil
  have rebuilt := ((((Rebuilt.start {}).operation (.forEach ⟨1⟩ Sample.left)
    Sample.makes_facts Sample.makes_facts).operation
    (.forEach ⟨1⟩ Sample.right) Sample.makes_others Sample.makes_others).operation
    (.join (.tail _ (.head _)) (.head _) joiners_alter)
    (Sample.makes_pairs (kept 1 (valueAt 0)))
    (Sample.makes_pairs (altered 1 (valueAt 0)))).operation
    (.groupBy ⟨1⟩ (.head _) request_alters)
    (groups kept) (groups altered)
  have identified : Condition.Identified
      ((history kept).flatMap Request.conditions ++ ((e kept).toPlan .unit).conditions) := by
    refine .of_subset (Condition.partsAll ((e kept).toPlan .unit).conditions) ?_ ?_
    · show Condition.partsAll (((e kept).toPlan .unit).conditions ++ _) ⊆ _
      rw [Condition.partsAll_append]
      exact List.append_subset.2 ⟨List.Subset.refl _, List.Subset.refl _⟩
    · show [5, 1, 2, 3, 4].Nodup
      decide
  have respects := arity_respected built (.head _) .unit 0 (history kept) identified
  have alters := rebuilt.toPlan (.head _) .unit
  exact ⟨identified, ⟨afterGroups, _, built, .head _, respects⟩,
    respects.altered afterGroups _ rebuilt _ _ (.head _) .unit .unit (history altered)
      (.cons (.insert _ _) (.cons (.insert _ _) (.cons (.evaluate alters .descending)
        (.cons (.insert _ _) .nil)))) .ascending⟩

end MatchAlgebra
