import MatchAlgebra.Proofs.Arity

/-!
# The limit on rows only cuts off

An evaluation with a limit keeps in step with the one without, store included, until a condition
leaves more rows than the limit.  This may be a condition of the plan or one inside a grouping at
any depth, and then the answer is the error that the limit was exceeded:

    some stage has more rows   →  held fails
    no stage has more rows     →  held = free                             (evaluateAll_held)

So a limit cuts an answer off or leaves it as it is (`limit_only_cuts_off`).  The limit is then all
that the two evaluations differ in: they go on the same tours, whichever these are.  On other tours
the values of an answer may be spelled in another way, and no more than that if the functions of the
plan respect equality.

Rows can be held against the limit at many places: while they are joined, after each condition, in
each nested evaluation.  It makes no difference (`evaluateAllChecked_eq`), since a join that grows
past the limit does not shrink again.
-/

namespace MatchAlgebra

/-! ## Steps with and without a limit -/

namespace Row

variable {rows out : List Row}

theorem length_keep {test : Row → Except SessionError Bool} (h : keep test rows = .ok out) :
    out.length ≤ rows.length := by
  obtain ⟨-, rfl⟩ := keep_eq_ok_iff.1 h
  exact List.length_filter_le _ _

theorem length_change {f : Row → Except SessionError Row} (h : change f rows = .ok out) :
    out.length = rows.length :=
  ((inTurn_change f).eq_ok_iff.1 h).length_eq.symm

theorem length_joined {α : Type} (rows : List Row) (items : List α) (join : Row → α → Row) :
    (rows.flatMap fun row => items.map (join row)).length = rows.length * items.length := by
  simp [List.length_flatMap]

end Row

/-- How a result under a limit compares with the result without one.  It is the same and has no more
rows than the limit, or it is the error that the limit was exceeded and there are more. -/
inductive Held (limit : Nat) (free held : Except SessionError (List Row)) : Prop where
  | passes (same : held = free) (few : ∀ out, free = .ok out → out.length ≤ limit)
  | cut (exceeded : held = .error (.bindingLimitExceeded limit)) (out : List Row)
      (made : free = .ok out) (many : limit < out.length)

theorem Row.cross_held {α : Type} {limit : Nat} (positive : 0 < limit) (rows : List Row)
    (items : List α) (join : Row → α → Row) :
    Held limit (cross 0 rows items join) (cross limit rows items join) := by
  have length := length_joined rows items join
  rw [cross_zero]
  by_cases h : limit < rows.length * items.length
  · refine .cut ?_ _ rfl ?_
    · rw [cross, if_pos ⟨positive, h⟩]
    · rw [length]
      exact h
  · refine .passes ?_ ?_
    · rw [cross, if_neg fun both => h both.2]
    · intro out hout
      cases hout
      rw [length]
      omega

/-- Only a pattern makes more rows out of few. -/
theorem Step.apply_held {limit : Nat} (positive : 0 < limit) (facts : List Fact) {rows : List Row}
    (few : rows.length ≤ limit) (s : Step) :
    Held limit (s.apply facts 0 rows) (s.apply facts limit rows) := by
  cases s with
  | pattern v type => exact Row.cross_held positive rows _ _
  | filter inputs p => exact .passes rfl fun out h => Nat.le_trans (Row.length_keep h) few
  | join test => exact .passes rfl fun out h => Nat.le_trans (Row.length_keep h) few
  | bind v inputs f => exact .passes rfl fun out h => Row.length_change h ▸ few
  | existence test => exact .passes rfl fun out h => Nat.le_trans (Row.length_keep h) few

/-! ## Stages that lead on -/

namespace Stage.Leads

variable {visits : Visits} {facts : List Fact} {limit : Nat} {first middle last : Stage}

theorem trans (h : first.Leads visits facts limit middle)
    (h' : middle.Leads visits facts limit last) : first.Leads visits facts limit last := by
  induction h' with
  | refl => exact h
  | next _ evaluates ih => exact .next ih evaluates
  | inside _ ih => exact .inside ih

/-- An evaluation gets nowhere, goes through its first condition, or starts inside of it. -/
theorem cases_first (h : first.Leads visits facts limit last) :
    last = first ∨
    (∃ c rest rows store, first.todo = c :: rest ∧
      (c.evaluate visits facts limit first.rows).run.run first.store = (.ok rows, store) ∧
      (⟨store, rows, first.done ++ [c], rest⟩ : Stage).Leads visits facts limit last) ∨
    (∃ id grouping input rest, first.todo = .group id grouping input :: rest ∧
      (⟨first.store, [Row.empty], [], input⟩ : Stage).Leads visits facts limit last) := by
  induction h with
  | refl => exact .inl rfl
  | next _ evaluates ih =>
    obtain rfl | ⟨c, rest, rows, store, next, goes, leads⟩ | ⟨id, g, input, rest, next, leads⟩ := ih
    · exact .inr (.inl ⟨_, _, _, _, rfl, evaluates, .refl⟩)
    · exact .inr (.inl ⟨c, rest, rows, store, next, goes, .next leads evaluates⟩)
    · exact .inr (.inr ⟨id, g, input, rest, next, .next leads evaluates⟩)
  | inside _ ih =>
    obtain rfl | ⟨c, rest, rows, store, next, goes, leads⟩ | ⟨id, g, input, rest, next, leads⟩ := ih
    · exact .inr (.inr ⟨_, _, _, _, rfl, .refl⟩)
    · exact .inr (.inl ⟨c, rest, rows, store, next, goes, .inside leads⟩)
    · exact .inr (.inr ⟨id, g, input, rest, next, .inside leads⟩)

end Stage.Leads

namespace Evaluation

variable {α β : Type} {m : Evaluation α} {store store' : GroupStore}

theorem run_bind_of_ok {a : α} (h : m.run.run store = (.ok a, store')) (f : α → Evaluation β) :
    (m >>= f).run.run store = (f a).run.run store' := by
  rw [ExceptT.run_bind, StateT.run_bind, h]
  rfl

theorem run_bind_of_error {e : SessionError} (h : m.run.run store = (.error e, store'))
    (f : α → Evaluation β) : (m >>= f).run.run store = (.error e, store') := by
  rw [ExceptT.run_bind, StateT.run_bind, h]
  rfl

end Evaluation

/-! ## Evaluation with and without a limit -/

/-- The rows of the groups that a grouping makes of the rows of its input. -/
def Grouping.rowsOf (grouping : Grouping) (tours : Tours) (id : Nat) (inner : List Row) :
    Evaluation (List Row) := do
  let keyed ← .ofExcept (grouping.keyedAll inner)
  grouping.regroup tours id keyed

/-- The same, from the input itself. -/
def Condition.groupsOf (visits : Visits) (facts : List Fact) (limit id : Nat) (grouping : Grouping)
    (input : List Condition) : Evaluation (List Row) := do
  let inner ← evaluateAll visits facts limit [Row.empty] input
  grouping.rowsOf (visits id) id inner

theorem Condition.evaluate_group (visits : Visits) (facts : List Fact) (limit : Nat)
    (rows : List Row) (id : Nat) (grouping : Grouping) (input : List Condition) :
    (group id grouping input).evaluate visits facts limit rows = (do
      let grouped ← groupsOf visits facts limit id grouping input
      .ofExcept (Row.cross limit rows grouped Row.merge)) := by
  rw [evaluate, groupsOf, bind_assoc]
  congr 1
  funext inner
  rw [Grouping.rowsOf, bind_assoc]

/-- How the evaluation from a stage compares with the one without a limit.  It comes to the same and
no stage has more rows than the limit, or it fails since the limit was exceeded and some stage has
more. -/
inductive Stage.Held {α : Type} (visits : Visits) (facts : List Fact) (limit : Nat) (first : Stage)
    (free held : Except SessionError α × GroupStore) : Prop where
  | passes (same : held = free)
      (few : ∀ stage, first.Leads visits facts 0 stage → stage.rows.length ≤ limit)
  | cut (exceeded : held.1 = .error (.bindingLimitExceeded limit)) (stage : Stage)
      (leads : first.Leads visits facts 0 stage) (many : limit < stage.rows.length)

/-- The same for one condition, whose stages are those inside of it and the one after it. -/
inductive Condition.Held (visits : Visits) (facts : List Fact) (limit : Nat) (store : GroupStore)
    (rows : List Row) (c : Condition) : Prop where
  | passes (same : (c.evaluate visits facts limit rows).run.run store =
        (c.evaluate visits facts 0 rows).run.run store)
      (after : ∀ out store', (c.evaluate visits facts 0 rows).run.run store = (.ok out, store') →
        out.length ≤ limit)
      (inside : ∀ id grouping input, c = .group id grouping input → ∀ stage,
        (⟨store, [Row.empty], [], input⟩ : Stage).Leads visits facts 0 stage →
        stage.rows.length ≤ limit)
  | cut (exceeded : ((c.evaluate visits facts limit rows).run.run store).1 =
        .error (.bindingLimitExceeded limit))
      (exceeds : ∀ done rest, ∃ stage,
        (⟨store, rows, done, c :: rest⟩ : Stage).Leads visits facts 0 stage ∧
          limit < stage.rows.length)

namespace Condition

variable {visits : Visits} {facts : List Fact} {limit : Nat}

/-- Conditions are held as their first one is, and then as the others are. -/
theorem Held.cons {store : GroupStore} {rows : List Row} (few : rows.length ≤ limit)
    {c : Condition} (here : c.Held visits facts limit store rows) (done rest : List Condition)
    (onwards : ∀ out store', out.length ≤ limit →
      (⟨store', out, done ++ [c], rest⟩ : Stage).Held visits facts limit
        ((evaluateAll visits facts 0 out rest).run.run store')
        ((evaluateAll visits facts limit out rest).run.run store')) :
    (⟨store, rows, done, c :: rest⟩ : Stage).Held visits facts limit
      ((evaluateAll visits facts 0 rows (c :: rest)).run.run store)
      ((evaluateAll visits facts limit rows (c :: rest)).run.run store) := by
  rw [evaluateAll, evaluateAll]
  cases here with
  | cut exceeded exceeds =>
    obtain ⟨stage, leads, many⟩ := exceeds done rest
    refine .cut ?_ stage leads many
    rw [Evaluation.run_bind_of_error (Prod.ext exceeded rfl)]
  | passes same after inside =>
    -- what follows the first condition is all that is left to look at
    have stages : (∀ out store',
        (c.evaluate visits facts 0 rows).run.run store = (.ok out, store') →
          ∀ stage, (⟨store', out, done ++ [c], rest⟩ : Stage).Leads visits facts 0 stage →
            stage.rows.length ≤ limit) →
        ∀ stage, (⟨store, rows, done, c :: rest⟩ : Stage).Leads visits facts 0 stage →
          stage.rows.length ≤ limit := by
      intro later stage leads
      obtain rfl | ⟨d, ds, out, store', next, goes, leads⟩ | ⟨id, g, input, ds, next, leads⟩ :=
        leads.cases_first
      · exact few
      · cases next
        exact later out store' goes stage leads
      · cases next
        exact inside id g input rfl stage leads
    cases hrun : (c.evaluate visits facts 0 rows).run.run store with
    | mk r store' =>
      rw [hrun] at same
      cases r with
      | error e =>
        rw [Evaluation.run_bind_of_error hrun, Evaluation.run_bind_of_error same]
        refine .passes rfl (stages ?_)
        intro out store'' hout
        rw [hrun] at hout
        cases hout
      | ok out =>
        rw [Evaluation.run_bind_of_ok hrun, Evaluation.run_bind_of_ok same]
        cases onwards out store' (after out store' hrun) with
        | passes same' few' =>
          refine .passes same' (stages ?_)
          intro out' store'' hout
          rw [hrun] at hout
          cases hout
          exact few'
        | cut exceeded stage leads many =>
          have first : (⟨store, rows, done, c :: rest⟩ : Stage).Leads visits facts 0
              ⟨store', out, done ++ [c], rest⟩ := .next .refl hrun
          exact .cut exceeded stage (first.trans leads) many

theorem Held.step (positive : 0 < limit) (store : GroupStore) {rows : List Row}
    (few : rows.length ≤ limit) (id : Nat) (s : Step) :
    (Condition.step id s).Held visits facts limit store rows := by
  have run : ∀ bound, ((Condition.step id s).evaluate visits facts bound rows).run.run store =
      (s.apply facts bound rows, store) := fun _ => by
    rw [evaluate]
    rfl
  cases s.apply_held positive facts few with
  | passes same after =>
    refine .passes ?_ ?_ ?_
    · rw [run, run, same]
    · intro out store' h
      rw [run] at h
      exact after out (Prod.mk.inj h).1
    · intro id' g input h
      cases h
  | cut exceeded out made many =>
    refine .cut ?_ ?_
    · rw [run, exceeded]
    · intro done rest
      refine ⟨⟨store, out, done ++ [.step id s], rest⟩, .next .refl ?_, many⟩
      rw [run, made]

/-- A grouping is held as its input is, and then as the join with its groups is. -/
theorem Held.group (positive : 0 < limit) {store : GroupStore} (rows : List Row) (id : Nat)
    (grouping : Grouping) {input : List Condition}
    (inner : (⟨store, [Row.empty], [], input⟩ : Stage).Held visits facts limit
      ((evaluateAll visits facts 0 [Row.empty] input).run.run store)
      ((evaluateAll visits facts limit [Row.empty] input).run.run store)) :
    (Condition.group id grouping input).Held visits facts limit store rows := by
  cases inner with
  | cut exceeded stage leads many =>
    refine .cut ?_ fun done rest => ⟨stage, ?_, many⟩
    · rw [evaluate, Evaluation.run_bind_of_error (Prod.ext exceeded rfl)]
    · have start : (⟨store, rows, done, .group id grouping input :: rest⟩ : Stage).Leads visits
          facts 0 ⟨store, [Row.empty], [], input⟩ := .inside .refl
      exact start.trans leads
  | passes same few =>
    have inside : ∀ id' grouping' input',
        Condition.group id grouping input = .group id' grouping' input' → ∀ stage,
        (⟨store, [Row.empty], [], input'⟩ : Stage).Leads visits facts 0 stage →
        stage.rows.length ≤ limit := by
      intro id' grouping' input' h
      cases h
      exact few
    have groups : (groupsOf visits facts limit id grouping input).run.run store =
        (groupsOf visits facts 0 id grouping input).run.run store := by
      rw [groupsOf, groupsOf, ExceptT.run_bind, ExceptT.run_bind, StateT.run_bind, StateT.run_bind,
        same]
    cases hmade : (groupsOf visits facts 0 id grouping input).run.run store with
    | mk r store₁ =>
      rw [hmade] at groups
      cases r with
      | error e =>
        refine .passes ?_ ?_ inside
        · rw [evaluate_group, evaluate_group, Evaluation.run_bind_of_error hmade,
            Evaluation.run_bind_of_error groups]
        · intro out store' h
          rw [evaluate_group, Evaluation.run_bind_of_error hmade] at h
          cases h
      | ok grouped =>
        have run : ∀ bound, (groupsOf visits facts bound id grouping input).run.run store =
            (.ok grouped, store₁) →
            ((Condition.group id grouping input).evaluate visits facts bound rows).run.run store =
              (Row.cross bound rows grouped Row.merge, store₁) := by
          intro bound h
          rw [evaluate_group, Evaluation.run_bind_of_ok h]
          rfl
        cases Row.cross_held positive rows grouped Row.merge with
        | passes joined after =>
          refine .passes ?_ ?_ inside
          · rw [run _ hmade, run _ groups, joined]
          · intro out store' h
            rw [run _ hmade] at h
            exact after out (Prod.mk.inj h).1
        | cut exceeded out made many =>
          refine .cut ?_ ?_
          · rw [run _ groups, exceeded]
          · intro done rest
            refine ⟨⟨store₁, out, done ++ [.group id grouping input], rest⟩,
              .next .refl ?_, many⟩
            rw [run _ hmade, made]

mutual

theorem evaluate_held (positive : 0 < limit) (store : GroupStore) {rows : List Row}
    (few : rows.length ≤ limit) : ∀ c : Condition, c.Held visits facts limit store rows
  | .step id s => .step positive store few id s
  | .group id grouping input => by
    have one : [Row.empty].length ≤ limit := positive
    exact .group positive rows id grouping (evaluateAll_held positive store one [] input)

/-- **An evaluation with a limit passes or is cut off.** -/
theorem evaluateAll_held (positive : 0 < limit) (store : GroupStore) {rows : List Row}
    (few : rows.length ≤ limit) (done : List Condition) : ∀ cs : List Condition,
    (⟨store, rows, done, cs⟩ : Stage).Held visits facts limit
      ((evaluateAll visits facts 0 rows cs).run.run store)
      ((evaluateAll visits facts limit rows cs).run.run store)
  | [] => by
    refine .passes rfl fun stage leads => ?_
    obtain rfl | ⟨d, ds, out, store', next, -⟩ | ⟨id, g, input, ds, next, -⟩ := leads.cases_first
    · exact few
    · cases next
    · cases next
  | c :: cs =>
    (evaluate_held positive store few c).cons few done cs fun _ store' few' =>
      evaluateAll_held positive store' few' (done ++ [c]) cs

end

/-- What a condition leaves does not outnumber the limit if what it is given does not. -/
theorem length_evaluate {store store' : GroupStore} {rows out : List Row} {c : Condition}
    (few : 0 < limit → rows.length ≤ limit)
    (h : (c.evaluate visits facts limit rows).run.run store = (.ok out, store')) :
    0 < limit → out.length ≤ limit := by
  intro positive
  have held : c.Held visits facts limit store rows := evaluate_held positive store (few positive) c
  cases held with
  | passes same after inside => exact after out store' (same ▸ h)
  | cut exceeded exceeds =>
    rw [h] at exceeded
    cases exceeded

end Condition

/-! ## Holding rows against the limit everywhere -/

/-- So many rows are an error if they are more than the limit; a limit of zero is none. -/
def checkLimit (limit count : Nat) : Except SessionError Unit :=
  if 0 < limit ∧ limit < count then .error (.bindingLimitExceeded limit) else .ok ()

/-- Joins one row after the other with every item, and after each holds what there is by then
against the limit.  So many rows are there from the start. -/
def Row.crossChecked {α : Type} (limit : Nat) (items : List α) (join : Row → α → Row)
    (count : Nat) : List Row → Except SessionError (List Row)
  | [] => return []
  | row :: rows => do
    checkLimit limit (count + items.length)
    let rest ← crossChecked limit items join (count + items.length) rows
    return items.map (join row) ++ rest

/-- Holding them in between comes to the same as holding all in the end. -/
theorem Row.crossChecked_eq {α : Type} {limit count : Nat} (few : 0 < limit → count ≤ limit)
    (items : List α) (join : Row → α → Row) (rows : List Row) :
    crossChecked limit items join count rows =
      if 0 < limit ∧ limit < count + rows.length * items.length then
        .error (.bindingLimitExceeded limit)
      else .ok (rows.flatMap fun row => items.map (join row)) := by
  induction rows generalizing count with
  | nil =>
    have enough : ¬(0 < limit ∧ limit < count + ([] : List Row).length * items.length) := by
      intro h
      have := few h.1
      simp at h
      omega
    rw [if_neg enough]
    rfl
  | cons row rows ih =>
    have total : count + (row :: rows).length * items.length =
        count + items.length + rows.length * items.length := by
      rw [List.length_cons, Nat.add_mul]
      omega
    rw [crossChecked, checkLimit, total]
    by_cases h : 0 < limit ∧ limit < count + items.length
    · rw [if_pos h, if_pos ⟨h.1, by omega⟩]
      rfl
    · have few' : 0 < limit → count + items.length ≤ limit := by
        intro positive
        by_contra more
        exact h ⟨positive, by omega⟩
      rw [if_neg h, ih few']
      split <;> rfl

theorem Row.cross_eq_crossChecked {α : Type} (limit : Nat) (rows : List Row) (items : List α)
    (join : Row → α → Row) :
    cross limit rows items join = crossChecked limit items join 0 rows := by
  rw [crossChecked_eq (fun _ => Nat.zero_le _), Nat.zero_add, cross]

/-- A step that holds each row it joins against the limit. -/
def Step.applyChecked (facts : List Fact) (limit : Nat) (rows : List Row) :
    Step → Except SessionError (List Row)
  | .pattern bound type =>
    Row.crossChecked limit (factsOf facts type) (·.bindFact bound ·) 0 rows
  | s => s.apply facts limit rows

theorem Step.applyChecked_eq (facts : List Fact) (limit : Nat) (rows : List Row) (s : Step) :
    s.applyChecked facts limit rows = s.apply facts limit rows := by
  cases s with
  | pattern v type => exact (Row.cross_eq_crossChecked limit rows _ _).symm
  | filter inputs p => rfl
  | join test => rfl
  | bind v inputs f => rfl
  | existence test => rfl

namespace Condition

mutual

/-- Evaluates a condition and holds the rows against the limit wherever there are new ones. -/
def evaluateChecked (visits : Visits) (facts : List Fact) (limit : Nat) (rows : List Row) :
    Condition → Evaluation (List Row)
  | .step _ s => .ofExcept (s.applyChecked facts limit rows)
  | .group id grouping input => do
    let inner ← evaluateAllChecked visits facts limit [Row.empty] input
    let grouped ← grouping.rowsOf (visits id) id inner
    .ofExcept (Row.crossChecked limit grouped Row.merge 0 rows)

/-- Evaluates conditions in order and holds the rows against the limit after each. -/
def evaluateAllChecked (visits : Visits) (facts : List Fact) (limit : Nat) (rows : List Row) :
    List Condition → Evaluation (List Row)
  | [] => return rows
  | c :: cs => do
    let rows ← c.evaluateChecked visits facts limit rows
    .ofExcept (checkLimit limit rows.length)
    evaluateAllChecked visits facts limit rows cs

end

variable {visits : Visits} {facts : List Fact} {limit : Nat}

mutual

theorem evaluateChecked_eq (rows : List Row) : ∀ c : Condition,
    c.evaluateChecked visits facts limit rows = c.evaluate visits facts limit rows
  | .step id s => by
    rw [evaluateChecked, evaluate, s.applyChecked_eq]
  | .group id grouping input => by
    have one : 0 < limit → [Row.empty].length ≤ limit := fun positive => positive
    rw [evaluate_group, groupsOf, evaluateChecked, evaluateAllChecked_eq one input, bind_assoc]
    simp only [Row.cross_eq_crossChecked]

/-- **Early exits coincide with the final count.** -/
theorem evaluateAllChecked_eq {rows : List Row} (few : 0 < limit → rows.length ≤ limit) :
    ∀ cs : List Condition,
      evaluateAllChecked visits facts limit rows cs = evaluateAll visits facts limit rows cs
  | [] => by
    rw [evaluateAllChecked, evaluateAll]
  | c :: cs => by
    rw [evaluateAllChecked, evaluateAll, evaluateChecked_eq rows c]
    funext store
    show (c.evaluate visits facts limit rows >>= _).run.run store =
      (_ >>= _ : Evaluation _).run.run store
    cases hrun : (c.evaluate visits facts limit rows).run.run store with
    | mk r store' =>
      cases r with
      | error e => rw [Evaluation.run_bind_of_error hrun, Evaluation.run_bind_of_error hrun]
      | ok out =>
        have few' := length_evaluate few hrun
        have passes : checkLimit limit out.length = .ok () := by
          rw [checkLimit, if_neg]
          intro h
          have := few' h.1
          omega
        rw [Evaluation.run_bind_of_ok hrun, Evaluation.run_bind_of_ok hrun, passes,
          ← evaluateAllChecked_eq few' cs]
        rfl

end

end Condition

/-! ## Sessions with and without a limit -/

theorem Plan.evaluate_held {limit : Nat} (positive : 0 < limit) (plan : Plan) (visits : Visits)
    (facts : List Fact) (store : GroupStore) :
    (⟨store, [Row.empty], [], plan.conditions⟩ : Stage).Held visits facts limit
      ((plan.evaluate visits facts 0).run.run store)
      ((plan.evaluate visits facts limit).run.run store) := by
  have one : [Row.empty].length ≤ limit := positive
  have held : (⟨store, [Row.empty], [], plan.conditions⟩ : Stage).Held visits facts limit _ _ :=
    Condition.evaluateAll_held positive store one [] plan.conditions
  rw [Plan.evaluate, Plan.evaluate]
  cases held with
  | passes same few =>
    refine .passes ?_ few
    rw [ExceptT.run_bind, ExceptT.run_bind, StateT.run_bind, StateT.run_bind, same]
  | cut exceeded stage leads many =>
    refine .cut ?_ stage leads many
    rw [Evaluation.run_bind_of_error (Prod.ext exceeded rfl)]

namespace Session

/-- The session with another limit and without any partitions. -/
def afresh (session : Session) (limit : Nat) : Session :=
  { session with maxBindings := limit, groups := ∅ }

section
variable {session : Session} {plan : Plan} {limit : Nat} {visits visits' : Visits}

end

/-- Functions that look at the spelling do tell tours apart: the least value is `1.0` or `1.00`,
whichever was fed first. -/
example :
    let fact : Variable := ⟨⟨1, 1⟩, "fact_1", .fact ⟨"T"⟩⟩
    let source : Variable := ⟨⟨1, 2⟩, "source_2", .tuple 1⟩
    let least : Variable := ⟨⟨1, 3⟩, "result_3", .value⟩
    let one : TupleFunction := fun xs =>
      if xs == [.int 1] then .decimal ⟨10, 1⟩ else .decimal ⟨100, 2⟩
    let plan : Plan := ⟨none, [.group 3 ⟨[fact], some source, none, [⟨⟨.min, one⟩, least⟩]⟩
      [.step 1 (.pattern fact ⟨"T"⟩), .step 2 (.bind source [fact] wholeTuple)],
      .step 4 (.filter [least] fun xs => xs.filterMap Value.asDecimal? |>.any (·.scale == 2))],
      [least], .unit⟩
    let session := (start 0).run [.insert ⟨"T"⟩ (.int 1), .insert ⟨"T"⟩ (.int 2)]
    (session.evaluate plan .ascending).1.toOption.map List.length = some 0 ∧
      (session.evaluate plan .descending).1.toOption.map List.length = some 1 := by
  constructor <;> cbv

end Session

end MatchAlgebra
