import MatchAlgebra.Plan.Basic
import MatchAlgebra.Proofs.History

/-!
# Verified plans never read an unbound variable

Verification runs over conditions without facts, evaluation over rows.  They meet in one invariant:
every row binds the variables that verification takes for bound.

    c.verify bound = .ok bound'  →  rows bind bound  →  the rows after c bind bound'
                                                                    (evaluateAll_limited)

So the only error that is left is that the limit on rows was exceeded.  A grouping binds its results
from the partitions that are kept.  These have one result for each collector, since the store is
sound; so the invariant holds after any history.
-/

namespace MatchAlgebra

theorem contains_of_mem {v : Variable} {vs : List Variable} (h : v ∈ vs) :
    vs.contains v = true :=
  List.contains_iff_exists_mem_beq.2 ⟨v, h, decide_eq_true rfl⟩

/-! ## What a row binds -/

namespace Row

def Binds (row : Row) (bound : List Variable) : Prop :=
  ∀ v ∈ bound, (row.values.lookup v.id).isSome = true

namespace Binds

variable {row other : Row} {bound wanted : List Variable}

theorem nil (row : Row) : row.Binds [] := fun _ hv => absurd hv List.not_mem_nil

theorem cons_iff {v : Variable} :
    row.Binds (v :: bound) ↔ (row.values.lookup v.id).isSome = true ∧ row.Binds bound :=
  List.forall_mem_cons

theorem append_iff : row.Binds (wanted ++ bound) ↔ row.Binds wanted ∧ row.Binds bound :=
  List.forall_mem_append

theorem bind (h : row.Binds bound) (v : Variable) (a : Value) :
    (row.bind v a).Binds (v :: bound) := by
  refine cons_iff.2 ⟨?_, fun w hw => ?_⟩
  · rw [Row.bind, List.lookup_cons_self]
    rfl
  · rw [Row.bind, List.lookup_cons]
    split
    · rfl
    · exact h w hw

theorem bindFact (h : row.Binds bound) (v : Variable) (fact : Fact) :
    (row.bindFact v fact).Binds (v :: bound) := h.bind v fact.value

theorem merge (h : row.Binds bound) (ho : other.Binds wanted) :
    (row.merge other).Binds (wanted ++ bound) := by
  refine append_iff.2 ⟨fun v hv => ?_, fun v hv => ?_⟩
  · rw [Row.merge, List.lookup_append, Option.isSome_or, ho v hv, Bool.true_or]
  · rw [Row.merge, List.lookup_append, Option.isSome_or, h v hv, Bool.or_true]

theorem get (h : row.Binds bound) {v : Variable} (hv : bound.contains v = true) :
    ∃ a, row.get v = .ok a := by
  obtain ⟨w, hw, hvw⟩ := List.contains_iff_exists_mem_beq.1 hv
  have same : v.id = w.id := of_decide_eq_true hvw
  obtain ⟨a, ha⟩ := Option.isSome_iff_exists.1 (h w hw)
  refine ⟨a, ?_⟩
  rw [Row.get, same, ha]

theorem read (h : row.Binds bound) (hw : ∀ v ∈ wanted, bound.contains v = true) :
    ∃ as, row.read wanted = .ok as :=
  row.inTurn_read.exists_ok fun v hv => h.get (hw v hv)

end Binds

end Row

theorem requireBound_eq_ok_iff {bound wanted : List Variable} {position : Nat} :
    requireBound bound position wanted = .ok () ↔ ∀ v ∈ wanted, bound.contains v = true := by
  rw [requireBound]
  split
  · next v hv =>
    refine ⟨(fun h => by cases h), fun h => ?_⟩
    have := List.find?_some hv
    rw [h v (List.mem_of_find?_eq_some hv)] at this
    cases this
  · next hnone =>
    refine ⟨fun _ v hv => ?_, fun _ => rfl⟩
    simpa using List.find?_eq_none.1 hnone v hv

/-! ## Results that fail by the limit only -/

/-- A result as told, or the error that the limit was exceeded. -/
def Limited {α : Type} (limit : Nat) (P : α → Prop) : Except SessionError α → Prop
  | .ok a => P a
  | .error e => 0 < limit ∧ e = .bindingLimitExceeded limit

/-- A result as told, or an error that is not about bindings. -/
def Bindable {α : Type} (P : α → Prop) : Except SessionError α → Prop
  | .ok a => P a
  | .error e => ∀ name, e ≠ .unboundVariable name

namespace Limited

variable {limit : Nat}

theorem bindable {α : Type} {P : α → Prop} {r : Except SessionError α} (h : Limited limit P r) :
    Bindable P r := by
  cases r with
  | ok a => exact h
  | error e =>
    obtain ⟨-, rfl⟩ := h
    exact fun name heq => by cases heq

theorem of_ok {α : Type} {P : α → Prop} {r : Except SessionError α} {a : α} (hr : r = .ok a)
    (ha : P a) : Limited limit P r := hr ▸ ha

theorem bind {α β : Type} {P : α → Prop} {Q : β → Prop} {r : Except SessionError α}
    {f : α → Except SessionError β} (hr : Limited limit P r)
    (hf : ∀ a, P a → Limited limit Q (f a)) : Limited limit Q (r >>= f) := by
  cases r with
  | ok a => exact hf a hr
  | error e => exact hr

theorem keep {P : Row → Prop} {test : Row → Except SessionError Bool} {rows : List Row}
    (h : ∀ row ∈ rows, P row) (ht : ∀ row, P row → Limited limit (fun _ => True) (test row)) :
    Limited limit (fun rows => ∀ row ∈ rows, P row) (Row.keep test rows) := by
  induction rows with
  | nil => exact fun row hrow => absurd hrow List.not_mem_nil
  | cons row rows ih =>
    rw [List.forall_mem_cons] at h
    refine (ht row h.1).bind fun kept _ => (ih h.2).bind fun rest hrest => ?_
    cases kept with
    | false => exact hrest
    | true => exact List.forall_mem_cons.2 ⟨h.1, hrest⟩

theorem inTurn {α β : Type} {P : α → Prop} {Q : β → Prop} {f : α → Except SessionError β}
    {all : List α → Except SessionError (List β)} (turn : InTurn f all) {as : List α}
    (h : ∀ a ∈ as, P a) (hf : ∀ a, P a → Limited limit Q (f a)) :
    Limited limit (fun bs => ∀ b ∈ bs, Q b) (all as) := by
  induction as with
  | nil =>
    rw [turn.nil]
    exact fun b hb => absurd hb List.not_mem_nil
  | cons a as ih =>
    rw [List.forall_mem_cons] at h
    rw [turn.cons]
    exact (hf a h.1).bind fun b hb => (ih h.2).bind fun bs hbs => List.forall_mem_cons.2 ⟨hb, hbs⟩

theorem imp {α : Type} {P Q : α → Prop} {r : Except SessionError α} (h : Limited limit P r)
    (hPQ : ∀ a, P a → Q a) : Limited limit Q r := by
  cases r with
  | ok a => exact hPQ a h
  | error e => exact h

theorem cross {α : Type} {P Q : Row → Prop} {R : α → Prop} {rows : List Row} {items : List α}
    {join : Row → α → Row} (h : ∀ row ∈ rows, P row) (hi : ∀ a ∈ items, R a)
    (hj : ∀ row a, P row → R a → Q (join row a)) :
    Limited limit (fun rows => ∀ row ∈ rows, Q row) (Row.cross limit rows items join) := by
  rw [Row.cross]
  split
  · next exceeded => exact ⟨exceeded.1, rfl⟩
  · intro row hrow
    obtain ⟨r, hr, hmem⟩ := List.mem_flatMap.1 hrow
    obtain ⟨a, ha, rfl⟩ := List.mem_map.1 hmem
    exact hj r a (h r hr) (hi a ha)

/-- Without a limit there is a result. -/
theorem exists_ok {α : Type} {P : α → Prop} {r : Except SessionError α} (h : Limited 0 P r) :
    ∃ a, r = .ok a ∧ P a := by
  cases r with
  | ok a => exact ⟨a, rfl, h⟩
  | error e => exact absurd h.1 (Nat.lt_irrefl 0)

end Limited

/-! ## Steps -/

theorem Step.apply_limited {s : Step} {bound : List Variable}
    (hs : ∀ v ∈ s.reads, bound.contains v = true) (facts : List Fact) (limit : Nat)
    {rows : List Row} (h : ∀ row ∈ rows, row.Binds bound) :
    Limited limit (fun rows => ∀ row ∈ rows, row.Binds (s.binds ++ bound))
      (s.apply facts limit rows) := by
  cases s with
  | pattern v type =>
    exact .cross (R := fun _ => True) h (fun _ _ => trivial)
      fun row fact hrow _ => hrow.bindFact v fact
  | filter inputs p =>
    refine .keep h fun row hrow => ?_
    obtain ⟨as, has⟩ : ∃ as, row.read inputs = .ok as := hrow.read hs
    refine .of_ok (a := p as) ?_ trivial
    rw [has]
    rfl
  | join test =>
    refine .keep h fun row hrow => ?_
    obtain ⟨hinputs, htarget⟩ := List.forall_mem_append.1 hs
    obtain ⟨as, has⟩ := hrow.read hinputs
    obtain ⟨a, ha⟩ := hrow.get (htarget test.target List.mem_cons_self)
    refine .of_ok (a := test.comparison.holds as a) ?_ trivial
    rw [JoinTest.passes, has, ha]
    rfl
  | bind v inputs f =>
    refine .inTurn (Row.inTurn_change _) h fun row hrow => ?_
    obtain ⟨as, has⟩ : ∃ as, row.read inputs = .ok as := hrow.read hs
    refine .of_ok (a := row.bind v (f as)) ?_ (hrow.bind v _)
    rw [has]
    rfl
  | existence test =>
    refine .keep h fun row hrow => ?_
    obtain ⟨as, has⟩ : ∃ as, row.read test.inputs = .ok as := hrow.read hs
    refine .of_ok (a := test.holds facts as) ?_ trivial
    rw [ExistenceTest.passes, has]
    rfl

/-! ## Groupings -/

namespace Grouping

variable {grouping : Grouping} {limit : Nat}

theorem keyed_limited {bound : List Variable}
    (hg : ∀ v ∈ grouping.readsInside, bound.contains v = true) {row : Row}
    (h : row.Binds bound) : Limited limit (fun _ => True) (grouping.keyed row) := by
  obtain ⟨hinputs, hsource⟩ := List.forall_mem_append.1 hg
  have key : Limited limit (fun _ => True) (grouping.keyOf row) := by
    unfold keyOf
    cases grouping.key with
    | none => trivial
    | some key =>
      obtain ⟨as, has⟩ := h.read hinputs
      refine .of_ok (a := key.function as) ?_ trivial
      dsimp only
      rw [has]
      rfl
  have source : Limited limit (fun _ => True) (grouping.sourceOf row) := by
    unfold sourceOf
    cases hs : grouping.source with
    | none => trivial
    | some source =>
      obtain ⟨a, ha⟩ := h.get (hsource source (by simp [hs]))
      exact .of_ok ha trivial
  rw [keyed_eq]
  exact key.bind fun _ _ => source.bind fun _ _ => trivial

theorem keyedAll_limited {bound : List Variable}
    (hg : ∀ v ∈ grouping.readsInside, bound.contains v = true) {rows : List Row}
    (h : ∀ row ∈ rows, row.Binds bound) :
    Limited limit (fun _ => True) (grouping.keyedAll rows) :=
  (Limited.inTurn grouping.inTurn_keyedAll h fun _ => keyed_limited hg).imp fun _ _ => trivial

/-- With a result for each collector the row of a group binds all that the grouping binds. -/
theorem binds_groupRow (key : Value) {results : List Value}
    (h : results.length = grouping.collectors.length) (facts : List Nat) :
    (grouping.groupRow key results facts).Binds grouping.binds := by
  have bound : ∀ (b : VariableId × Value), b ∈ (grouping.groupRow key results facts).values →
      ((grouping.groupRow key results facts).values.lookup b.1).isSome = true := by
    intro b hb
    exact List.lookup_isSome_iff.2 ⟨b, hb, beq_self_eq_true b.1⟩
  rw [grouping.values_groupRow] at bound
  refine Row.Binds.append_iff.2 ⟨fun v hv => ?_, fun v hv => ?_⟩
  · rw [grouping.values_groupRow]
    refine bound (v.id, key) (List.mem_append_right _ ?_)
    obtain ⟨k, hk, rfl⟩ := Option.map_eq_some_iff.1 (Option.mem_toList.1 hv)
    exact Option.mem_toList.2 (Option.map_eq_some_iff.2 ⟨k, hk, rfl⟩)
  · obtain ⟨output, houtput, rfl⟩ := List.mem_map.1 hv
    have length : (grouping.outputs.map (·.bound.id)).length ≤ results.length := by
      rw [h, collectors, List.length_map, List.length_map]
    have mem : output.bound.id ∈ ((grouping.outputs.map (·.bound.id)).zip results).map (·.1) := by
      rw [List.map_fst_zip length]
      exact List.mem_map_of_mem houtput
    obtain ⟨b, hb, heq⟩ := List.mem_map.1 mem
    rw [grouping.values_groupRow, ← heq]
    exact bound b (List.mem_append_left _ (List.mem_reverse.2 hb))

theorem binds_regroup {collectorsOf : Nat → List Collector} {store : GroupStore} {id : Nat}
    (h : GroupStore.Sound collectorsOf store) (hid : grouping.collectors = collectorsOf id)
    (tours : Tours) (rows : List KeyedSource) :
    ∀ row ∈ ((grouping.regroup tours id rows).run store).1, row.Binds grouping.binds := by
  intro row hrow
  obtain ⟨⟨k, p⟩, hmem, rfl⟩ := List.mem_map.1 hrow
  have hp := (Std.TreeMap.mem_toList_iff_getKey?_eq_some_and_getElem?_eq_some.1 hmem).2
  obtain ⟨feed, -, ⟨⟨next, fused⟩, -⟩⟩ := (hid ▸ h.getD id).reconcile _ k p hp
  refine binds_groupRow k ?_ _
  rw [Fused.results, List.length_map, fused.length_eq]

end Grouping

/-! ## Evaluation -/

namespace Condition

variable {collectorsOf : Nat → List Collector}

/-- What verifying a grouping asks of its input. -/
theorem verify_group_eq_ok {id : Nat} {grouping : Grouping} {input : List Condition}
    {bound bound' : List Variable} {position : Nat}
    (h : (group id grouping input).verify bound position = .ok bound') :
    ∃ inner, verifyAll [] 0 input = .ok inner ∧
      (∀ v ∈ grouping.readsInside, inner.contains v = true) ∧ bound' = grouping.binds ++ bound := by
  rw [verify] at h
  cases hinner : verifyAll [] 0 input with
  | error e =>
    rw [hinner] at h
    cases h
  | ok inner =>
    rw [hinner] at h
    cases hreads : requireBound inner position grouping.readsInside with
    | error e =>
      simp only [hreads, bind, Except.bind] at h
      cases h
    | ok u =>
      simp only [hreads, bind, Except.bind, pure, Except.pure] at h
      cases h
      exact ⟨inner, rfl, requireBound_eq_ok_iff.1 hreads, rfl⟩

theorem verify_step_eq_ok {id : Nat} {s : Step} {bound bound' : List Variable} {position : Nat}
    (h : (step id s).verify bound position = .ok bound') :
    (∀ v ∈ s.reads, bound.contains v = true) ∧ bound' = s.binds ++ bound := by
  rw [verify] at h
  cases hreads : requireBound bound position s.reads with
  | error e =>
    simp only [hreads, bind, Except.bind] at h
    cases h
  | ok u =>
    simp only [hreads, bind, Except.bind, pure, Except.pure] at h
    cases h
    exact ⟨requireBound_eq_ok_iff.1 hreads, rfl⟩

theorem verifyAll_cons_eq_ok {c : Condition} {cs : List Condition} {bound bound' : List Variable}
    {position : Nat} (h : verifyAll bound position (c :: cs) = .ok bound') :
    ∃ after, c.verify bound position = .ok after ∧
      verifyAll after (position + 1) cs = .ok bound' := by
  rw [verifyAll] at h
  cases hc : c.verify bound position with
  | error e =>
    rw [hc] at h
    cases h
  | ok after =>
    rw [hc] at h
    exact ⟨after, rfl, h⟩

mutual

theorem evaluate_limited (visits : Visits) (facts : List Fact) (limit : Nat) {rows : List Row}
    {bound bound' : List Variable} {position : Nat} (hrows : ∀ row ∈ rows, row.Binds bound) :
    ∀ c : Condition, (∀ d ∈ c.parts, d.SelfAgrees collectorsOf) →
      c.verify bound position = .ok bound' →
      Evaluation.Ensures (GroupStore.Sound collectorsOf) (c.evaluate visits facts limit rows)
        (Limited limit fun rows => ∀ row ∈ rows, row.Binds bound')
  | .step id s, _, hv => by
    obtain ⟨hreads, rfl⟩ := verify_step_eq_ok hv
    exact .ofExcept (s.apply_limited hreads facts limit hrows)
  | .group id grouping input, h, hv => by
    obtain ⟨hid, hinput⟩ := forall_parts_group.1 h
    obtain ⟨inner, hinner, hreads, rfl⟩ := verify_group_eq_ok hv
    have start : ∀ row ∈ [Row.empty], row.Binds [] := fun row _ => .nil row
    refine (evaluateAll_limited visits facts limit start input hinput hinner).bind
      (fun inner hinner => ?_) fun _ he => he
    refine Evaluation.Ensures.bind (.ofExcept (Grouping.keyedAll_limited hreads hinner))
      (fun keyed _ => ?_) fun _ he => he
    refine Evaluation.Ensures.bind
      (P := Limited limit fun grouped => ∀ row ∈ grouped, row.Binds grouping.binds)
      (.lift fun store hstore => ⟨?_, ?_⟩) (fun grouped hgrouped => .ofExcept ?_) fun _ he => he
    · exact Grouping.binds_regroup hstore hid _ keyed
    · exact Grouping.sound_regroup _ hstore hid keyed
    · exact .cross hrows hgrouped fun row other hrow hother => hrow.merge hother

/-- Rows bind what verification takes for bound, and no condition fails for want of a binding. -/
theorem evaluateAll_limited (visits : Visits) (facts : List Fact) (limit : Nat) {rows : List Row}
    {bound bound' : List Variable} {position : Nat} (hrows : ∀ row ∈ rows, row.Binds bound) :
    ∀ cs : List Condition, (∀ d ∈ partsAll cs, d.SelfAgrees collectorsOf) →
      verifyAll bound position cs = .ok bound' →
      Evaluation.Ensures (GroupStore.Sound collectorsOf) (evaluateAll visits facts limit rows cs)
        (Limited limit fun rows => ∀ row ∈ rows, row.Binds bound')
  | [], _, hv => by
    cases hv
    exact .ofExcept hrows
  | c :: cs, h, hv => by
    obtain ⟨hc, hcs⟩ := forall_partsAll_cons.1 h
    obtain ⟨after, hvc, hvcs⟩ := verifyAll_cons_eq_ok hv
    exact (evaluate_limited visits facts limit hrows c hc hvc).bind
      (fun rows hrows => evaluateAll_limited visits facts limit hrows cs hcs hvcs) fun _ he => he

end

end Condition

namespace Plan

theorem verify_eq_ok {plan : Plan} (h : plan.verify = .ok ()) :
    ∃ bound, Condition.verifyAll [] 0 plan.conditions = .ok bound ∧
      ∀ v ∈ plan.visible, bound.contains v = true := by
  rw [verify] at h
  cases hv : Condition.verifyAll [] 0 plan.conditions with
  | error e =>
    rw [hv] at h
    cases h
  | ok bound =>
    rw [hv] at h
    exact ⟨bound, rfl, requireBound_eq_ok_iff.1 h⟩

theorem matchesOf_limited {plan : Plan} {bound : List Variable}
    (hvisible : ∀ v ∈ plan.visible, bound.contains v = true) {limit : Nat} {rows : List Row}
    (h : ∀ row ∈ rows, row.Binds bound) : Limited limit (fun _ => True) (plan.matchesOf rows) := by
  have one : ∀ row : Row, row.Binds bound → Limited limit (fun _ => True) (plan.matchOf row) := by
    intro row binds
    obtain ⟨as, has⟩ := binds.read hvisible
    rw [matchOf, has]
    trivial
  exact (Limited.inTurn plan.inTurn_matchesOf h one).imp fun _ _ => trivial

theorem evaluate_limited {collectorsOf : Nat → List Collector} {plan : Plan}
    (h : ∀ d ∈ Condition.partsAll plan.conditions, d.SelfAgrees collectorsOf)
    (hv : plan.verify = .ok ()) (visits : Visits) (facts : List Fact) (limit : Nat) :
    Evaluation.Ensures (GroupStore.Sound collectorsOf) (plan.evaluate visits facts limit)
      (Limited limit fun _ => True) := by
  obtain ⟨bound, hbound, hvisible⟩ := verify_eq_ok hv
  have start : ∀ row ∈ [Row.empty], row.Binds [] := fun row _ => .nil row
  exact (Condition.evaluateAll_limited visits facts limit start plan.conditions h hbound).bind
    (fun rows hrows => .ofExcept (matchesOf_limited hvisible hrows)) fun _ he => he

/-- Without a limit a verified plan has matches. -/
theorem exists_evaluate {collectorsOf : Nat → List Collector} {plan : Plan}
    (h : ∀ d ∈ Condition.partsAll plan.conditions, d.SelfAgrees collectorsOf)
    (hv : plan.verify = .ok ()) (visits : Visits) (facts : List Fact) {store : GroupStore}
    (sound : GroupStore.Sound collectorsOf store) :
    ∃ ms, ((plan.evaluate visits facts 0).run.run store).1 = .ok ms := by
  obtain ⟨ms, hms, -⟩ := Limited.exists_ok (evaluate_limited h hv visits facts 0 store sound).1
  exact ⟨ms, hms⟩

theorem evaluate_bindable {collectorsOf : Nat → List Collector} {plan : Plan}
    (h : ∀ d ∈ Condition.partsAll plan.conditions, d.SelfAgrees collectorsOf)
    (hv : plan.verify = .ok ()) (visits : Visits) (facts : List Fact) (limit : Nat) :
    Evaluation.Ensures (GroupStore.Sound collectorsOf) (plan.evaluate visits facts limit)
      (Bindable fun _ => True) :=
  (evaluate_limited h hv visits facts limit).imp fun _ hr => hr.bindable

end Plan

/-- Without a limit a verified plan has matches at every moment. -/
theorem Session.exists_matches {history : List Request} {plan : Plan}
    (identified : Condition.Identified (history.flatMap Request.conditions ++ plan.conditions))
    (verified : plan.verify = .ok ()) (visits : Visits) :
    ∃ ms, (((start 0).run history).evaluate plan visits).1 = .ok ms := by
  obtain ⟨collectorsOf, sound, own⟩ := sound_after 0 identified
  have unlimited : ((start 0).run history).maxBindings = 0 := maxBindings_run _ _
  obtain ⟨ms, hms⟩ := plan.exists_evaluate own verified visits ((start 0).run history).facts sound
  refine ⟨ms, ?_⟩
  show ((Plan.evaluate _ _ _ ((start 0).run history).maxBindings).run.run _).1 = _
  rw [unlimited]
  exact hms

/-- **Verified plans never read an unbound variable.**  Whatever was asked of a session before, the
evaluation of a verified plan does not fail for want of a binding, on whatever tours it goes. -/
theorem Session.evaluate_ne_unboundVariable (limit : Nat) (history : List Request) (plan : Plan)
    (identified : Condition.Identified (history.flatMap Request.conditions ++ plan.conditions))
    (verified : plan.verify = .ok ()) (visits : Visits) (name : String) :
    (((start limit).run history).evaluate plan visits).1 ≠ .error (.unboundVariable name) := by
  obtain ⟨collectorsOf, sound, own⟩ := sound_after limit identified
  have never : Bindable (fun _ => True) (((start limit).run history).evaluate plan visits).1 :=
    (plan.evaluate_bindable own verified visits ((start limit).run history).facts
      ((start limit).run history).maxBindings _ sound).1
  intro h
  rw [h] at never
  exact never name rfl

/-- A grouping of groups; an evaluation before it, on other tours, went past the limit halfway. -/
theorem Session.evaluate_ne_unboundVariable_nested :
    let fact : Variable := ⟨⟨1, 1⟩, "fact_1", .fact ⟨"T"⟩⟩
    let key : Variable := ⟨⟨1, 2⟩, "groupKey_2", .value⟩
    let count : Variable := ⟨⟨1, 3⟩, "result_3", .value⟩
    let copy : Variable := ⟨⟨1, 4⟩, "groupKey_4", .value⟩
    let inner : Condition := .group 2 ⟨[fact], some fact, some ⟨key, valueAt 0⟩, [⟨.count, count⟩]⟩
      [.step 1 (.pattern fact ⟨"T"⟩)]
    let outer : Condition := .group 3 ⟨[key, count], none, some ⟨copy, valueAt 1⟩, []⟩ [inner]
    let plan : Plan := ⟨none, [outer], [copy], .unit⟩
    let pairs : Plan := ⟨none, [inner, .step 4 (.pattern fact ⟨"T"⟩)], [key, fact], .unit⟩
    let history : List Request :=
      [.insert ⟨"T"⟩ (.int 1), .insert ⟨"T"⟩ (.int 2), .evaluate pairs .descending,
        .update 1 (.int 2)]
    Condition.Identified (history.flatMap Request.conditions ++ plan.conditions) ∧
      plan.verify = .ok () ∧
      (((start 3).run history).evaluate plan).1 ≠ .error (.unboundVariable "result_3") := by
  intro fact key count copy inner outer plan pairs history
  have identified :
      Condition.Identified (history.flatMap Request.conditions ++ plan.conditions) := by
    intro c hc d hd hcd
    simp only [history, plan, pairs, inner, outer, List.flatMap_cons, List.flatMap_nil,
      Request.conditions, Condition.partsAll, Condition.parts, List.cons_append, List.nil_append,
      List.append_nil, List.mem_cons, List.not_mem_nil, or_false] at hc hd
    rcases hc with rfl | rfl | rfl | rfl | rfl | rfl <;>
      rcases hd with rfl | rfl | rfl | rfl | rfl | rfl <;>
      first | rfl | cases hcd
  have verified : plan.verify = .ok () := rfl
  exact ⟨identified, verified,
    evaluate_ne_unboundVariable 3 history plan identified verified .ascending _⟩

end MatchAlgebra
