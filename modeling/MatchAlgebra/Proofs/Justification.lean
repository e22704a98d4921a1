import MatchAlgebra.Proofs.Existence
import MatchAlgebra.Proofs.Handles
import MatchAlgebra.Proofs.Typing
import MatchAlgebra.Proofs.Verification

/-!
# Matches come from the facts they name

Without groupings every step takes rows one by one, and a row lists the facts it was made from.  So
taking a fact away takes away the rows that list it and leaves the others as they are:

    s.apply facts 0 rows = .ok out  →
      s.apply (facts without h) 0 (rows without h) = .ok (out without h)     (Step.apply_without)

An existence check is the exception, since it looks at facts that it does not list.  It must not
range over the fact that is taken away.

A grouping lists the facts of all its rows, so that here too no facts are listed but live ones
(`evaluateAll_live`).
-/

namespace MatchAlgebra

/-! ## Taking rows away -/

namespace Row

variable {rows out : List Row} {P : Row → Bool}

/-- A test of single rows does not notice that others are missing. -/
theorem keep_filter {test : Row → Except SessionError Bool} (h : keep test rows = .ok out) :
    keep test (rows.filter P) = .ok (out.filter P) := by
  obtain ⟨succeeds, rfl⟩ := keep_eq_ok_iff.1 h
  refine keep_eq_ok_iff.2 ⟨fun row hrow => succeeds row (List.mem_of_mem_filter hrow), ?_⟩
  rw [List.filter_filter, List.filter_filter]
  exact List.filter_congr fun row _ => Bool.and_comm _ _

theorem change_filter {f : Row → Except SessionError Row}
    (hf : ∀ row changed, f row = .ok changed → P changed = P row) (h : change f rows = .ok out) :
    change f (rows.filter P) = .ok (out.filter P) := by
  rw [(inTurn_change f).eq_ok_iff] at h ⊢
  refine List.rel_filter (fun row changed heq => ?_) h
  show P row = true ↔ P changed = true
  rw [hf row changed heq]

/-- What is made of pairs is there if both parts are. -/
theorem filter_joined {α : Type} {join : Row → α → Row} {Q : Row → Bool} {q : α → Bool}
    (hjoin : ∀ row a, P (join row a) = (Q row && q a)) (rows : List Row) (items : List α) :
    (rows.flatMap fun row => items.map (join row)).filter P =
      (rows.filter Q).flatMap fun row => (items.filter q).map (join row) := by
  induction rows with
  | nil => rfl
  | cons row rows ih =>
    rw [List.flatMap_cons, List.filter_append, ih, List.filter_map]
    by_cases hQ : Q row = true
    · have here : items.filter (P ∘ join row) = items.filter q := by
        refine List.filter_congr fun a _ => ?_
        rw [Function.comp, hjoin, hQ, Bool.true_and]
      rw [here, List.filter_cons_of_pos hQ, List.flatMap_cons]
    · have here : items.filter (P ∘ join row) = [] := by
        refine List.filter_eq_nil_iff.2 fun a _ => ?_
        rw [Function.comp, hjoin, Bool.eq_false_iff.2 hQ, Bool.false_and]
        exact Bool.false_ne_true
      rw [here, List.filter_cons_of_neg hQ]
      rfl

end Row

/-! ## Taking a fact away -/

/-- Steps go on with what is left after a fact is taken away, if they do not search for it. -/
theorem Step.apply_without {s : Step} {facts : List Fact} {handle : Nat}
    (elsewhere : ∀ test, s = .existence test →
      factsOf (facts.filter (·.handle ≠ handle)) test.type = factsOf facts test.type)
    {rows out : List Row} (h : s.apply facts 0 rows = .ok out) :
    s.apply (facts.filter (·.handle ≠ handle)) 0 (rows.filter (handle ∉ ·.facts)) =
      .ok (out.filter (handle ∉ ·.facts)) := by
  cases s with
  | pattern bound type =>
    have left : factsOf (facts.filter (·.handle ≠ handle)) type =
        (factsOf facts type).filter (·.handle ≠ handle) := by
      rw [factsOf, factsOf, List.filter_filter, List.filter_filter]
      exact List.filter_congr fun fact _ => Bool.and_comm _ _
    cases h
    rw [Step.apply, Row.cross_zero, left, Row.filter_joined]
    intro row fact
    have listed : (row.bindFact bound fact).facts = row.facts ++ [fact.handle] := rfl
    rw [listed, ← Bool.decide_and, decide_eq_decide, List.mem_append, List.mem_singleton]
    tauto
  | filter inputs predicate => exact Row.keep_filter h
  | join test => exact Row.keep_filter h
  | bind bound inputs function =>
    refine Row.change_filter (fun row changed hchanged => ?_) h
    obtain ⟨as, -, hchanged⟩ := bind_eq_ok.1 hchanged
    cases hchanged
    rfl
  | existence test =>
    have same : ∀ tuple, test.holds (facts.filter (·.handle ≠ handle)) tuple =
        test.holds facts tuple := by
      intro tuple
      rw [ExistenceTest.holds, elsewhere test rfl, ExistenceTest.holds]
    have passes : test.passes (facts.filter (·.handle ≠ handle)) = test.passes facts := by
      funext row
      unfold ExistenceTest.passes
      simp only [same]
    unfold Step.apply
    dsimp only
    rw [passes]
    exact Row.keep_filter h

namespace Condition

theorem deriveAll_without {facts : List Fact} {handle : Nat} {cs : List Condition}
    {steps : List Step} (does : List.Forall₂ Does cs steps)
    (elsewhere : ∀ test, .existence test ∈ steps →
      factsOf (facts.filter (·.handle ≠ handle)) test.type = factsOf facts test.type)
    {rows out : List Row} (h : deriveAll .afresh facts 0 rows cs = .ok out) :
    deriveAll .afresh (facts.filter (·.handle ≠ handle)) 0 (rows.filter (handle ∉ ·.facts)) cs =
      .ok (out.filter (handle ∉ ·.facts)) := by
  induction does generalizing rows with
  | nil =>
    cases h
    rfl
  | cons first _ ih =>
    obtain ⟨id, rfl⟩ := first
    obtain ⟨next, hnext, h⟩ := bind_eq_ok.1 h
    have step := Step.apply_without
      (fun test heq => elsewhere test (heq ▸ List.mem_cons_self)) hnext
    rw [deriveAll, derive, step]
    exact ih (fun test htest => elsewhere test (List.mem_cons_of_mem _ htest)) h

end Condition

theorem Plan.matchesOf_without (plan : Plan) {handle : Nat} {rows : List Row} {ms : List Match}
    (h : plan.matchesOf rows = .ok ms) :
    plan.matchesOf (rows.filter (handle ∉ ·.facts)) = .ok (ms.filter (handle ∉ ·.facts)) := by
  rw [matchesOf_eq_ok_iff] at h ⊢
  induction h with
  | nil => exact .nil
  | @cons row m rows ms hm _ ih =>
    have facts : m.facts = HandleSet.ascending row.facts := (matchOf_eq_ok_iff.1 hm).2.2
    by_cases listed : handle ∈ row.facts
    · rw [List.filter_cons_of_neg (by simpa using listed), List.filter_cons_of_neg]
      · exact ih
      · rw [facts]
        simpa [HandleSet.mem_ascending] using listed
    · rw [List.filter_cons_of_pos (by simpa using listed), List.filter_cons_of_pos]
      · exact .cons hm ih
      · rw [facts]
        simpa [HandleSet.mem_ascending] using listed

/-! ## Plans of steps -/

theorem Evaluation.ofExcept_bind {α β : Type} (r : Except SessionError α)
    (f : α → Except SessionError β) :
    (Evaluation.ofExcept (r >>= f) : Evaluation β) = Evaluation.ofExcept r >>= fun a =>
      Evaluation.ofExcept (f a) := by
  cases r with
  | ok a => rfl
  | error e => rfl

/-- Steps keep nothing for later. -/
theorem Condition.evaluateAll_of_does {cs : List Condition} {steps : List Step}
    (does : List.Forall₂ Does cs steps) (visits : Visits) (facts : List Fact) (limit : Nat)
    (rows : List Row) :
    evaluateAll visits facts limit rows cs = .ofExcept (deriveAll .afresh facts limit rows cs) := by
  induction does generalizing rows with
  | nil => rfl
  | cons first _ ih =>
    obtain ⟨id, rfl⟩ := first
    rw [evaluateAll, deriveAll, evaluate, derive, Evaluation.ofExcept_bind]
    congr 1
    funext rows
    exact ih rows

namespace Plan

variable {plan : Plan} {steps : List Step}

theorem evaluate_of_does (does : List.Forall₂ Condition.Does plan.conditions steps)
    (visits : Visits) (facts : List Fact) (limit : Nat) :
    plan.evaluate visits facts limit = .ofExcept (plan.derive .afresh facts limit) := by
  rw [Plan.evaluate, Condition.evaluateAll_of_does does, Plan.derive,
    Evaluation.ofExcept_bind]

theorem exists_derive (does : List.Forall₂ Condition.Does plan.conditions steps)
    (verified : plan.verify = .ok ()) (facts : List Fact) :
    ∃ ms, plan.derive .afresh facts 0 = .ok ms := by
  have agrees : ∀ d ∈ Condition.partsAll plan.conditions, d.SelfAgrees fun _ => [] := by
    rw [Condition.Does.partsAll does]
    intro d hd
    obtain ⟨s, -, id, rfl⟩ := Condition.Does.eq_of_mem does hd
    trivial
  obtain ⟨ms, hms⟩ := plan.exists_evaluate agrees verified .ascending facts GroupStore.sound_empty
  rw [evaluate_of_does does] at hms
  exact ⟨ms, hms⟩

theorem derive_without (does : List.Forall₂ Condition.Does plan.conditions steps)
    {facts : List Fact} {handle : Nat} (elsewhere : ∀ test, .existence test ∈ steps →
      factsOf (facts.filter (·.handle ≠ handle)) test.type = factsOf facts test.type)
    {ms : List Match} (h : plan.derive .afresh facts 0 = .ok ms) :
    plan.derive .afresh (facts.filter (·.handle ≠ handle)) 0 =
      .ok (ms.filter (handle ∉ ·.facts)) := by
  obtain ⟨rows, hrows, hmatches⟩ := bind_eq_ok.1 h
  have left := Condition.deriveAll_without does elsewhere hrows
  have start : [Row.empty].filter (handle ∉ ·.facts) = [Row.empty] := rfl
  rw [start] at left
  rw [derive, left]
  exact plan.matchesOf_without hmatches

/-- Some existence check of the plan ranges over the facts of the type. -/
def Searches (plan : Plan) (type : FactType) : Prop :=
  ∃ id test, .step id (.existence test) ∈ Condition.partsAll plan.conditions ∧ test.type = type

end Plan

namespace Term

/-- There is no grouping in the term. -/
def Ungrouped : Term → Prop
  | .forEach _ => True
  | .filter t _ => t.Ungrouped
  | .join left right _ => left.Ungrouped ∧ right.Ungrouped
  | .existence t _ _ _ => t.Ungrouped
  | .map t _ => t.Ungrouped
  | .groupBy _ _ => False

end Term

/-- Without groupings a term is laid out in steps. -/
theorem Layout.exists_steps {t : Term} {cs : List Condition} {vs : List Variable}
    (h : Layout t cs vs) (ungrouped : t.Ungrouped) :
    ∃ steps, List.Forall₂ Condition.Does cs steps := by
  induction h with
  | forEach _ binds => exact ⟨_, binds.singleton⟩
  | filter _ tests ih =>
    obtain ⟨steps, does⟩ := ih ungrouped
    exact ⟨_, List.rel_append does tests.singleton⟩
  | join _ _ _ _ does ihl ihr =>
    obtain ⟨left_steps, left_does⟩ := ihl ungrouped.1
    obtain ⟨right_steps, right_does⟩ := ihr ungrouped.2
    exact ⟨_, List.rel_append (List.rel_append left_does right_does) does⟩
  | existence _ _ tests ih =>
    obtain ⟨steps, does⟩ := ih ungrouped
    exact ⟨_, List.rel_append does tests.singleton⟩
  | map _ _ binds ih =>
    obtain ⟨steps, does⟩ := ih ungrouped
    exact ⟨_, List.rel_append does binds.singleton⟩
  | groupBy => exact ungrouped.elim

/-! ## Live facts -/

/-- All facts that the row lists are there. -/
def Row.Live (facts : List Fact) (row : Row) : Prop :=
  ∀ handle ∈ row.facts, ∃ fact ∈ facts, fact.handle = handle

namespace Row.Live

variable {facts : List Fact} {row other : Row}

theorem empty : Row.empty.Live facts := fun _ h => absurd h List.not_mem_nil

theorem bindFact (h : row.Live facts) (v : Variable) {fact : Fact} (hfact : fact ∈ facts) :
    (row.bindFact v fact).Live facts := by
  intro handle hhandle
  rcases List.mem_append.1 hhandle with hhandle | hhandle
  · exact h handle hhandle
  · rw [List.mem_singleton.1 hhandle]
    exact ⟨fact, hfact, rfl⟩

theorem merge (h : row.Live facts) (ho : other.Live facts) : (row.merge other).Live facts := by
  intro handle hhandle
  rcases List.mem_append.1 hhandle with hhandle | hhandle
  · exact h handle hhandle
  · exact ho handle hhandle

end Row.Live

theorem Step.apply_live {s : Step} {facts : List Fact} {limit : Nat} {rows out : List Row}
    (hrows : ∀ row ∈ rows, row.Live facts) (h : s.apply facts limit rows = .ok out) :
    ∀ row ∈ out, row.Live facts := by
  cases s with
  | pattern bound type =>
    refine Row.forall_cross (fun row hrow fact hfact => ?_) h
    exact (hrows row hrow).bindFact bound (List.mem_filter.1 hfact).1
  | filter inputs predicate => exact Row.forall_keep hrows h
  | join test => exact Row.forall_keep hrows h
  | bind bound inputs function =>
    refine Row.forall_change hrows (fun row changed hrow hchanged => ?_) h
    obtain ⟨as, -, hchanged⟩ := bind_eq_ok.1 hchanged
    cases hchanged
    exact hrow
  | existence test => exact Row.forall_keep hrows h

/-- The row of a group lists facts of the rows that fall into it. -/
theorem Grouping.regroup_live {grouping : Grouping} {facts : List Fact} {rows : List Row}
    (hrows : ∀ row ∈ rows, row.Live facts) {keyed : List KeyedSource}
    (hkeyed : grouping.keyedAll rows = .ok keyed) (tours : Tours) (id : Nat) (store : GroupStore) :
    ∀ row ∈ ((grouping.regroup tours id keyed).run store).1, row.Live facts := by
  intro row hrow handle hhandle
  obtain ⟨⟨key, p⟩, -, rfl⟩ := List.mem_map.1 hrow
  have listed : handle ∈ ((groupInputs keyed)[key]?.map (·.facts.toList)).getD [] := hhandle
  rw [facts_groupInputs, HandleSet.mem_ascending] at listed
  obtain ⟨k, hk, hhandle⟩ := List.mem_flatMap.1 listed
  obtain ⟨row, hrow, heq⟩ := exists_row_of_keyedAll hkeyed k (List.mem_filter.1 hk).1
  exact hrows row hrow handle (facts_of_keyed heq ▸ hhandle)

namespace Condition

mutual

theorem evaluate_live (visits : Visits) (facts : List Fact) (limit : Nat) {rows : List Row}
    (hrows : ∀ row ∈ rows, row.Live facts) : ∀ c : Condition,
    Evaluation.Ensures (fun _ => True) (c.evaluate visits facts limit rows) fun r =>
      ∀ out, r = .ok out → ∀ row ∈ out, row.Live facts
  | .step id s => .ofExcept fun out h => s.apply_live hrows h
  | .group id grouping input => by
    have failed : ∀ (e : SessionError) (out : List Row), Except.error e = .ok out →
        ∀ row ∈ out, row.Live facts := fun _ _ h => by cases h
    have start : ∀ row ∈ [Row.empty], row.Live facts := List.forall_mem_singleton.2 .empty
    refine (evaluateAll_live visits facts limit start input).bind (fun inner hinner => ?_)
      fun e _ => failed e
    refine Evaluation.Ensures.bind (P := (grouping.keyedAll inner = ·)) (.ofExcept rfl)
      (fun keyed hkeyed => ?_) fun e _ => failed e
    refine Evaluation.Ensures.bind (P := fun r => ∀ grouped : List Row, r = .ok grouped →
        ∀ row ∈ grouped, row.Live facts) (.lift fun store _ => ⟨?_, trivial⟩)
      (fun grouped hgrouped => .ofExcept fun out h => ?_) fun e _ => failed e
    · intro grouped hgrouped
      cases hgrouped
      exact Grouping.regroup_live (hinner inner rfl) hkeyed _ id store
    · exact Row.forall_cross (fun row hrow other hother =>
        (hrows row hrow).merge (hgrouped grouped rfl other hother)) h

/-- Whatever is kept from before, rows list live facts only. -/
theorem evaluateAll_live (visits : Visits) (facts : List Fact) (limit : Nat) {rows : List Row}
    (hrows : ∀ row ∈ rows, row.Live facts) : ∀ cs : List Condition,
    Evaluation.Ensures (fun _ => True) (evaluateAll visits facts limit rows cs) fun r =>
      ∀ out, r = .ok out → ∀ row ∈ out, row.Live facts
  | [] => .ofExcept fun out h => by
    cases h
    exact hrows
  | c :: cs => (evaluate_live visits facts limit hrows c).bind
      (fun rows hrows => evaluateAll_live visits facts limit (hrows rows rfl) cs)
      fun _ _ _ h => by cases h

end

end Condition

theorem Plan.evaluate_live (plan : Plan) (visits : Visits) (facts : List Fact) (limit : Nat) :
    Evaluation.Ensures (fun _ => True) (plan.evaluate visits facts limit) fun r =>
      ∀ ms, r = .ok ms → ∀ m ∈ ms, m.facts.Pairwise (· < ·) ∧
        ∀ handle ∈ m.facts, ∃ fact ∈ facts, fact.handle = handle := by
  have start : ∀ row ∈ [Row.empty], row.Live facts := List.forall_mem_singleton.2 .empty
  refine (Condition.evaluateAll_live visits facts limit start plan.conditions).bind
    (fun rows hrows => .ofExcept fun ms hms m hm => ?_) fun e _ ms h => by cases h
  obtain ⟨row, hrow, heq⟩ := exists_related_of_mem (matchesOf_eq_ok_iff.1 hms) hm
  rw [(matchOf_eq_ok_iff.1 heq).2.2]
  refine ⟨HandleSet.ascending_pairwise _, fun handle hhandle => ?_⟩
  exact hrows rows rfl row hrow handle (HandleSet.mem_ascending.1 hhandle)

/-! ## Sessions -/

namespace Session

/-- No two facts have the same handle. -/
theorem Ordered.eq_of_handle {session : Session} (h : session.Ordered) {a b : Fact}
    (ha : a ∈ session.facts) (hb : b ∈ session.facts) (same : a.handle = b.handle) : a = b := by
  have nodup : (session.facts.map (·.handle)).Nodup :=
    (List.pairwise_map.2 h.facts).imp Nat.ne_of_lt
  exact List.inj_on_of_nodup_map nodup ha hb same

theorem Ordered.get?_eq {session : Session} (h : session.Ordered) {fact : Fact}
    (hfact : fact ∈ session.facts) : session.get? fact.handle = some fact.value := by
  rw [get?]
  cases hfound : session.facts.find? (·.handle = fact.handle) with
  | none =>
    have := List.find?_eq_none.1 hfound fact hfact
    simp at this
  | some found =>
    have same : found.handle = fact.handle := by simpa using List.find?_some hfound
    rw [h.eq_of_handle (List.mem_of_find?_eq_some hfound) hfact same]
    rfl

theorem Ordered.factsOf_without {session : Session} (h : session.Ordered) {fact : Fact}
    (hfact : fact ∈ session.facts) {type : FactType} (other : fact.type ≠ type) :
    factsOf (session.facts.filter (·.handle ≠ fact.handle)) type =
      factsOf session.facts type := by
  rw [factsOf, factsOf, List.filter_filter]
  refine List.filter_congr fun b hb => ?_
  by_cases htype : b.type = type
  · have apart : b.handle ≠ fact.handle := by
      intro same
      rw [h.eq_of_handle hb hfact same] at htype
      exact other htype
    simp [htype, apart]
  · simp [htype]

/-- **Matches come from the facts they name.**  Without groupings, and without a limit, the matches
after a fact is retracted are those before that do not list it, unless an existence check ranges
over the fact.  With or without groupings the facts of a match are live and in ascending order.
Nothing of this depends on the tours of an evaluation. -/
theorem justifications_exact {s : Supply} {es : List (Term × Expression)}
    (built : LooselyBuilt s es) {t : Term} {e : Expression} (operand : (t, e) ∈ es) (w : Weigher)
    (history : List Request) :
    (t.Ungrouped → ∀ fact ∈ ((start 0).run history).facts,
      ¬(e.toPlan w).Searches fact.type → ∀ visits visits',
      ∃ ms after, (((start 0).run history).evaluate (e.toPlan w) visits).1 = .ok ms ∧
        (((start 0).run history).evaluate (e.toPlan w) visits).2.retract fact.handle =
          .ok (after, fact.value) ∧
        (after.evaluate (e.toPlan w) visits').1 = .ok (ms.filter (fact.handle ∉ ·.facts))) ∧
    ∀ limit visits ms, (((start limit).run history).evaluate (e.toPlan w) visits).1 = .ok ms →
      ∀ m ∈ ms, m.facts.Pairwise (· < ·) ∧
        ∀ handle ∈ m.facts, ∃ fact ∈ ((start limit).run history).facts,
          fact.handle = handle := by
  constructor
  · intro ungrouped fact live spared visits visits'
    generalize hsession : (start 0).run history = session at live
    have ordered : session.Ordered := hsession ▸ (ordered_start 0).run history
    have unlimited : session.maxBindings = 0 := hsession ▸ maxBindings_run (start 0) history
    obtain ⟨r, -, shapes⟩ := built.exists_registry
    have layout := (shapes _ operand).layout
    obtain ⟨steps, does⟩ : ∃ steps, List.Forall₂ Condition.Does (e.toPlan w).conditions steps :=
      layout.exists_steps ungrouped
    have verified := (shapes _ operand).verify w
    -- the plan is evaluated as if nothing was kept, before and after
    have answer : ∀ (later : Session) (tours : Visits), later.maxBindings = 0 →
        (later.evaluate (e.toPlan w) tours).1 = (e.toPlan w).derive .afresh later.facts 0 := by
      intro later tours no_limit
      show ((Plan.evaluate _ tours later.facts later.maxBindings).run.run later.groups).1 = _
      rw [no_limit, Plan.evaluate_of_does does]
      rfl
    obtain ⟨ms, hms⟩ := Plan.exists_derive does verified session.facts
    let after : Session := { (session.evaluate (e.toPlan w) visits).2 with
      facts := session.facts.filter (·.handle ≠ fact.handle) }
    refine ⟨ms, after, (answer session visits unlimited).trans hms, ?_, ?_⟩
    · have found : (session.evaluate (e.toPlan w) visits).2.get? fact.handle = some fact.value :=
        ordered.get?_eq live
      rw [retract, found]
      rfl
    · rw [answer after visits' unlimited]
      refine Plan.derive_without does (fun test htest => ?_) hms
      refine ordered.factsOf_without live fun same => spared ?_
      obtain ⟨c, hc, id, rfl⟩ := exists_related_of_mem does htest
      refine ⟨id, test, ?_, same.symm⟩
      rw [Condition.Does.partsAll does]
      exact hc
  · intro limit visits ms hms
    exact ((e.toPlan w).evaluate_live visits _ _ _ trivial).1 ms hms

/-- Equal facts of two types that there is such a fact of a third type for.  One of two facts of the
second type is retracted, so that one of two matches is left. -/
theorem justifications_exact_checked_join :
    let wanted : FactType := ⟨"U"⟩
    let joiners : List Joiner := [.comparing .equal ⟨valueAt 0, id⟩]
    let rule : JoinRule := ⟨some [⟨.equal, ⟨valueAt 0, id⟩⟩], none⟩
    let t : Term := .existence (Sample.pairing (valueAt 0)) .found wanted joiners
    let visible : List Variable := [Sample.v, Sample.w]
    let candidate : Variable := Sample.numbered "toExist" 3 (.fact wanted)
    let found : Condition := .step 4 (.existence ⟨.found, candidate, wanted, visible, rule⟩)
    let log : Log := .link (Sample.tested (valueAt 0)) 4 4 found
    let e : Expression := ⟨(Sample.pairs (valueAt 0)).front, ⟨Sample.w, log⟩, ⟨visible, log⟩⟩
    let history : List Request := [.insert Sample.left (.int 7), .insert Sample.right (.int 7),
      .insert wanted (.int 7), .insert Sample.right (.int 7)]
    let session := (start 0).run history
    let fact : Fact := ⟨2, Sample.right, .int 7⟩
    (∃ s es, LooselyBuilt s es ∧ (t, e) ∈ es) ∧ t.Ungrouped ∧ fact ∈ session.facts ∧
      ¬(e.toPlan .unit).Searches Sample.right ∧
      ∃ ms after, (session.evaluate (e.toPlan .unit)).1 = .ok ms ∧
        ms.map (·.facts) = [[1, 2], [1, 4]] ∧
        (session.evaluate (e.toPlan .unit)).2.retract 2 = .ok (after, .int 7) ∧
        (after.evaluate (e.toPlan .unit)).1 = .ok (ms.filter (2 ∉ ·.facts)) ∧
        ∀ m ∈ ms, m.facts.Pairwise (· < ·) := by
  intro wanted joiners rule t visible candidate found log e history session fact
  obtain ⟨s, checks⟩ : ∃ s, ((Sample.pairs (valueAt 0)).checkExistence ⟨1⟩ .found wanted
      joiners).Yields Sample.afterPairs e s := ⟨_, rfl⟩
  have built := LooselyBuilt.of_built
    ((Sample.built_pairs (valueAt 0)).existence (.head _) checks)
  have ungrouped : t.Ungrouped := ⟨trivial, trivial⟩
  have live : fact ∈ session.facts := List.mem_cons_of_mem _ List.mem_cons_self
  have spared : ¬(e.toPlan .unit).Searches Sample.right := by
    rintro ⟨number, test, hmem, htype⟩
    have parts : Condition.partsAll (e.toPlan .unit).conditions =
        [.step 1 (.pattern Sample.v Sample.left), .step 2 (.pattern Sample.w Sample.right),
          .step 3 (.join ⟨[Sample.v], Sample.w, 0, ⟨.equal, ⟨valueAt 0, id⟩⟩⟩), found] := rfl
    rw [parts] at hmem
    simp only [found, List.mem_cons, Condition.step.injEq, reduceCtorEq, and_false, false_or,
      Step.existence.injEq, List.not_mem_nil, or_false] at hmem
    rw [hmem.2] at htype
    exact absurd htype (by decide)
  obtain ⟨exact_after, sound⟩ := justifications_exact built (.head _) .unit history
  obtain ⟨ms, after, hms, hretract, hafter⟩ :=
    exact_after ungrouped fact live spared .ascending .ascending
  have answer : (session.evaluate (e.toPlan .unit)).1 =
      .ok [⟨[.int 7, .int 7], Weigher.unit.weigh [.int 7, .int 7], [1, 2]⟩,
        ⟨[.int 7, .int 7], Weigher.unit.weigh [.int 7, .int 7], [1, 4]⟩] := rfl
  have facts : ms.map (·.facts) = [[1, 2], [1, 4]] := by
    rw [← Except.ok.inj (answer.symm.trans hms)]
    rfl
  exact ⟨⟨s, _, built, .head _⟩, ungrouped, live, spared, ms, after, hms, facts, hretract, hafter,
    fun m hm => (sound 0 .ascending ms hms m hm).1⟩

end Session

end MatchAlgebra
