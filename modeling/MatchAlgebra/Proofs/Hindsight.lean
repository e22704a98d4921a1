import MatchAlgebra.Proofs.Bindings
import MatchAlgebra.Proofs.Preview
import MatchAlgebra.Proofs.Products

/-!
# Evaluations told afterwards

Evaluations of the same facts may each go on tours of their own.  What one of them will find can
then not be foreseen, but what all of them have found can be told from the partitions that they
leave.  The first evaluation that gets through a grouping brings its partitions up to date, and from
then on they stay as they are:

    a run of evaluations leaves the store σ  →
      a plan that had matches in it had those of  plan.derive (.kept σ)       (answers_runAll)

That the partitions hold what the input of the grouping gives is itself told from the store
(`Condition.SelfSettled`), so that whatever is settled stays settled (`GroupStore.Later`).
-/

namespace MatchAlgebra

/-- Groups as the store has them. -/
def GroupRows.kept (store : GroupStore) : GroupRows := fun id grouping keyed =>
  (store.getD id ∅).toList.map fun (key, partition) =>
    grouping.rowOf (groupInputs keyed) key partition

theorem GroupRows.grouped_kept (store : GroupStore) : (kept store).Grouped := by
  intro id grouping keyed row hrow
  obtain ⟨⟨key, partition⟩, -, rfl⟩ := List.mem_map.1 hrow
  exact ⟨key, _, _, rfl⟩

theorem GroupRows.grouped_renewed (visits : Visits) (store : GroupStore) :
    (renewed visits store).Grouped := by
  intro id grouping keyed row hrow
  obtain ⟨⟨key, partition⟩, -, rfl⟩ := List.mem_map.1 hrow
  exact ⟨key, _, _, rfl⟩

/-! ## Settled groupings -/

namespace Condition

variable {groups groups' : GroupRows} (facts : List Fact) (limit : Nat)

mutual

/-- Only the groups of the groupings among conditions matter to them. -/
theorem derive_congr (rows : List Row) : ∀ c : Condition,
    (∀ d ∈ c.parts, groups d.id = groups' d.id) →
      c.derive groups facts limit rows = c.derive groups' facts limit rows
  | .step _ _, _ => rfl
  | .group id grouping input, h => by
    obtain ⟨own, inside⟩ := forall_parts_group.1 h
    have same : groups id = groups' id := own
    rw [derive, derive, deriveAll_congr [Row.empty] input inside, same]

theorem deriveAll_congr (rows : List Row) : ∀ cs : List Condition,
    (∀ d ∈ partsAll cs, groups d.id = groups' d.id) →
      deriveAll groups facts limit rows cs = deriveAll groups' facts limit rows cs
  | [], _ => rfl
  | c :: cs, h => by
    obtain ⟨first, rest⟩ := forall_partsAll_cons.1 h
    rw [deriveAll, deriveAll, derive_congr rows c first]
    congr 1
    funext rows
    exact deriveAll_congr rows cs rest

end

/-- The partitions of a grouping, its input apart, hold what its input gives. -/
def SelfSettled (store : GroupStore) : Condition → Prop
  | .step _ _ => True
  | .group id grouping input => ∃ keyed,
      deriveAll (.kept store) facts limit [Row.empty] input >>= grouping.keyedAll = .ok keyed ∧
      ∀ key source, (store.getD id ∅).copies key source =
        Partitions.wanted (groupInputs keyed) key source

end Condition

/-- Whatever was settled in the earlier store has stayed as it was. -/
def GroupStore.Later (facts : List Fact) (limit : Nat) (pool : List Condition)
    (store later : GroupStore) : Prop :=
  ∀ c ∈ Condition.partsAll pool, (∀ d ∈ c.parts, d.SelfSettled facts limit store) →
    later.getD c.id ∅ = store.getD c.id ∅

namespace GroupStore.Later

variable {facts : List Fact} {limit : Nat} {pool cs : List Condition}
  {store later last : GroupStore}

theorem refl (store : GroupStore) : Later facts limit pool store store := fun _ _ _ => rfl

section
variable {ds : List Condition} (h : Later facts limit pool store later)
  (closed : ∀ d ∈ ds, d.parts ⊆ ds) (known : ds ⊆ Condition.partsAll pool)
  (settled : ∀ d ∈ ds, d.SelfSettled facts limit store)
include h closed known settled

theorem getD_eq : ∀ d ∈ ds, later.getD d.id ∅ = store.getD d.id ∅ :=
  fun d hd => h d (known hd) fun e he => settled e (closed d hd he)

/-- What is settled is read in the same way. -/
theorem kept_eq : ∀ d ∈ ds, GroupRows.kept later d.id = GroupRows.kept store d.id := by
  intro d hd
  funext grouping keyed
  rw [GroupRows.kept, GroupRows.kept, h.getD_eq closed known settled d hd]

/-- What is settled stays settled. -/
theorem stays_settled : ∀ d ∈ ds, d.SelfSettled facts limit later := by
  intro d hd
  cases d with
  | step id s => trivial
  | group id grouping input =>
    obtain ⟨keyed, hkeyed, held⟩ := settled _ hd
    refine ⟨keyed, ?_, ?_⟩
    · rw [Condition.deriveAll_congr facts limit [Row.empty] input fun e he =>
        h.kept_eq closed known settled e (closed _ hd (List.mem_cons_of_mem _ he))]
      exact hkeyed
    · rw [show later.getD id ∅ = store.getD id ∅ from h.getD_eq closed known settled _ hd]
      exact held

end

theorem trans (h : Later facts limit pool store later) (h' : Later facts limit pool later last) :
    Later facts limit pool store last := by
  intro c hc settled
  have still := h.stays_settled (fun d hd => Condition.parts_subset_parts c hd)
    (Condition.parts_subset_partsAll pool hc) settled
  exact (h' c hc still).trans (h c hc settled)

/-- Bringing partitions up to date with what their input gives leaves what is settled. -/
theorem regroup (identified : Condition.Identified pool) {id : Nat} {grouping : Grouping}
    {input : List Condition} (mem : .group id grouping input ∈ Condition.partsAll pool)
    {keyed : List KeyedSource} (hkeyed : Condition.deriveAll (.kept store) facts limit [Row.empty]
      input >>= grouping.keyedAll = .ok keyed) (tours : Tours) :
    Later facts limit pool store ((grouping.regroup tours id keyed).run store).2 := by
  intro c hc settled
  show (store.insert id _).getD c.id ∅ = _
  rw [Std.TreeMap.getD_insert]
  split
  · next heq =>
    cases identified _ mem _ hc (Nat.compare_eq_eq.1 heq)
    obtain ⟨keyed', hkeyed', held⟩ := settled _ (Condition.self_mem_parts _)
    cases hkeyed'.symm.trans hkeyed
    exact Partitions.reconcile_eq_self held _ tours
  · rfl

end GroupStore.Later

/-- The rows of a grouping are those of the partitions that it leaves. -/
theorem Grouping.kept_regroup (grouping : Grouping) (tours : Tours) (id : Nat)
    (keyed : List KeyedSource) (store : GroupStore) :
    GroupRows.kept ((grouping.regroup tours id keyed).run store).2 id grouping keyed =
      ((grouping.regroup tours id keyed).run store).1 := by
  show ((store.insert id _).getD id ∅).toList.map _ = _
  rw [Std.TreeMap.getD_insert_self]
  rfl

/-! ## Evaluation settles -/

/-- From this store the computation gets to a later one, where its result is as told. -/
def Evaluation.Settles {α : Type} (facts : List Fact) (limit : Nat) (pool : List Condition)
    (m : Evaluation α) (store : GroupStore) (post : GroupStore → α → Prop) : Prop :=
  GroupStore.Later facts limit pool store (m.run.run store).2 ∧
    ∀ a, (m.run.run store).1 = .ok a → post (m.run.run store).2 a

namespace Evaluation.Settles

variable {α β : Type} {facts : List Fact} {limit : Nat} {pool : List Condition}
  {store : GroupStore} {P : GroupStore → α → Prop} {Q : GroupStore → β → Prop}

theorem ofExcept {r : Except SessionError α} (h : ∀ a, r = .ok a → P store a) :
    Settles facts limit pool (.ofExcept r) store P := ⟨.refl store, h⟩

theorem bind {m : Evaluation α} {f : α → Evaluation β} (hm : Settles facts limit pool m store P)
    (hf : ∀ a later, GroupStore.Later facts limit pool store later → P later a →
      Settles facts limit pool (f a) later Q) : Settles facts limit pool (m >>= f) store Q := by
  obtain ⟨first, told⟩ := hm
  rw [Settles, ExceptT.run_bind, StateT.run_bind]
  generalize m.run.run store = out at first told
  obtain ⟨r, later⟩ := out
  cases r with
  | ok a =>
    obtain ⟨onward, post⟩ := hf a later first (told a rfl)
    exact ⟨first.trans onward, post⟩
  | error e => exact ⟨first, fun b hb => by cases hb⟩

end Evaluation.Settles

/-- Bringing partitions up to date settles a grouping whose input is settled. -/
theorem Grouping.regroup_settles {facts : List Fact} {limit : Nat} {pool : List Condition}
    (identified : Condition.Identified pool) {id : Nat} {grouping : Grouping}
    {input : List Condition} (mem : .group id grouping input ∈ Condition.partsAll pool)
    {store : GroupStore}
    (settled : ∀ d ∈ Condition.partsAll input, d.SelfSettled facts limit store)
    {keyed : List KeyedSource} (hkeyed : Condition.deriveAll (.kept store) facts limit [Row.empty]
      input >>= grouping.keyedAll = .ok keyed) (tours : Tours) :
    Evaluation.Settles facts limit pool (liftM (grouping.regroup tours id keyed)) store
      fun later grouped =>
        (∀ d ∈ (Condition.group id grouping input).parts, d.SelfSettled facts limit later) ∧
        Condition.deriveAll (.kept later) facts limit [Row.empty] input >>= grouping.keyedAll =
          .ok keyed ∧
        GroupRows.kept later id grouping keyed = grouped := by
  have onward := GroupStore.Later.regroup identified mem hkeyed tours
  have closed := fun d hd => Condition.parts_subset_partsAll input (d := d) hd
  have inside : Condition.partsAll input ⊆ Condition.partsAll pool := fun e he =>
    Condition.parts_subset_partsAll pool mem (List.mem_cons_of_mem _ he)
  have told := hkeyed
  rw [← Condition.deriveAll_congr facts limit [Row.empty] input
    (onward.kept_eq closed inside settled)] at told
  refine ⟨onward, fun grouped hgrouped => ⟨Condition.forall_parts_group.2 ⟨?_, ?_⟩, told, ?_⟩⟩
  · refine ⟨keyed, told, fun key source => ?_⟩
    show ((store.insert id _).getD id ∅).copies key source = _
    rw [Std.TreeMap.getD_insert_self]
    exact Partitions.copies_reconcile _ _ _ key source
  · exact onward.stays_settled closed inside settled
  · exact (grouping.kept_regroup tours id keyed store).trans (Except.ok.inj hgrouped)

namespace Condition

variable {facts : List Fact} {limit : Nat} {pool : List Condition}

mutual

theorem evaluate_settles (visits : Visits) (identified : Identified pool) (rows : List Row) :
    ∀ c : Condition, (∀ d ∈ c.parts, d ∈ partsAll pool) → ∀ store,
      Evaluation.Settles facts limit pool (c.evaluate visits facts limit rows) store
        fun later out => (∀ d ∈ c.parts, d.SelfSettled facts limit later) ∧
          c.derive (.kept later) facts limit rows = .ok out
  | .step id s, _, store => .ofExcept fun out hout =>
    ⟨fun d hd => List.mem_singleton.1 hd ▸ trivial, hout⟩
  | .group id grouping input, known, store => by
    obtain ⟨mem, inside⟩ := forall_parts_group.1 known
    refine (evaluateAll_settles visits identified [Row.empty] input inside store).bind ?_
    rintro inner before - ⟨settled, hinner⟩
    refine Evaluation.Settles.bind (P := fun middle keyed => before = middle ∧
      grouping.keyedAll inner = .ok keyed) (.ofExcept fun keyed hkeyed => ⟨rfl, hkeyed⟩) ?_
    rintro keyed middle - ⟨rfl, hkeyed⟩
    have told : deriveAll (.kept before) facts limit [Row.empty] input >>= grouping.keyedAll =
        .ok keyed := by
      rw [hinner]
      exact hkeyed
    refine (Grouping.regroup_settles identified mem settled told (visits id)).bind ?_
    rintro grouped later - ⟨settled', told', rfl⟩
    refine .ofExcept fun out hout => ⟨settled', ?_⟩
    rw [derive, ← bind_assoc, told']
    exact hout

/-- **Evaluation settles.**  If conditions succeed, their rows can be read off the store that they
leave, and every grouping among them is settled. -/
theorem evaluateAll_settles (visits : Visits) (identified : Identified pool) (rows : List Row) :
    ∀ cs : List Condition, (∀ d ∈ partsAll cs, d ∈ partsAll pool) → ∀ store,
      Evaluation.Settles facts limit pool (evaluateAll visits facts limit rows cs) store
        fun later out => (∀ d ∈ partsAll cs, d.SelfSettled facts limit later) ∧
          deriveAll (.kept later) facts limit rows cs = .ok out
  | [], _, store => .ofExcept fun out hout => ⟨fun d hd => absurd hd List.not_mem_nil, hout⟩
  | c :: cs, known, store => by
    obtain ⟨first, rest⟩ := forall_partsAll_cons.1 known
    refine (evaluate_settles visits identified rows c first store).bind ?_
    rintro next middle - ⟨settled, hnext⟩
    obtain ⟨onward, told⟩ := evaluateAll_settles visits identified next cs rest middle
    have closed := fun d hd => parts_subset_parts c (d := d) hd
    refine ⟨onward, fun out hout => ?_⟩
    obtain ⟨after, hrest⟩ := told out hout
    refine ⟨forall_partsAll_cons.2 ⟨onward.stays_settled closed first settled, after⟩, ?_⟩
    rw [deriveAll, derive_congr facts limit rows c (onward.kept_eq closed first settled), hnext]
    exact hrest

end

end Condition

theorem Plan.evaluate_settles (visits : Visits) (facts : List Fact) (limit : Nat)
    {pool : List Condition} (identified : Condition.Identified pool) {plan : Plan}
    (known : ∀ d ∈ Condition.partsAll plan.conditions, d ∈ Condition.partsAll pool)
    (store : GroupStore) :
    Evaluation.Settles facts limit pool (plan.evaluate visits facts limit) store
      fun later ms => (∀ d ∈ Condition.partsAll plan.conditions, d.SelfSettled facts limit later) ∧
        plan.derive (.kept later) facts limit = .ok ms := by
  refine (Condition.evaluateAll_settles visits identified [Row.empty] _ known store).bind ?_
  rintro rows later - ⟨settled, hrows⟩
  refine .ofExcept fun ms hms => ⟨settled, ?_⟩
  rw [derive, hrows]
  exact hms

/-! ## A run of evaluations -/

namespace Session

/-- Wherever the plan is evaluated in the run, this is the answer. -/
def AnswersIn (session : Session) (evaluations : List (Plan × Visits)) (plan : Plan)
    (answer : Except SessionError (List Match)) : Prop :=
  ∀ before visits after, evaluations = before ++ (plan, visits) :: after →
    session.answerAfter before plan visits = answer

/-- **A run is told by what it leaves.**  Every plan that had matches had those that are read off
the partitions in the end. -/
theorem answers_runAll (session : Session) {pool : List Condition}
    (identified : Condition.Identified pool) {evaluations : List (Plan × Visits)}
    (known : ∀ e ∈ evaluations, ∀ d ∈ Condition.partsAll e.1.conditions,
      d ∈ Condition.partsAll pool) :
    GroupStore.Later session.facts session.maxBindings pool session.groups
        (session.runAll evaluations).groups ∧
      ∀ before plan visits after, evaluations = before ++ (plan, visits) :: after →
        ∀ ms, session.answerAfter before plan visits = .ok ms →
          plan.derive (.kept (session.runAll evaluations).groups) session.facts
            session.maxBindings = .ok ms := by
  induction evaluations generalizing session with
  | nil => exact ⟨.refl _, fun before plan visits after split => by simp at split⟩
  | cons e evaluations ih =>
    obtain ⟨plan, visits⟩ := e
    obtain ⟨hplan, hrest⟩ := List.forall_mem_cons.1 known
    obtain ⟨first, told⟩ := plan.evaluate_settles visits session.facts session.maxBindings
      identified hplan session.groups
    obtain ⟨onward, later⟩ := ih (session.evaluate plan visits).2 hrest
    refine ⟨first.trans onward, fun before asked tours after split ms answer => ?_⟩
    cases before with
    | nil =>
      cases split
      obtain ⟨settled, found⟩ := told ms answer
      rw [← found]
      refine congrArg (· >>= plan.matchesOf) (Condition.deriveAll_congr _ _ _ _ ?_)
      exact onward.kept_eq (fun d hd => Condition.parts_subset_partsAll _ hd) hplan settled
    | cons _ before =>
      cases split
      exact later before asked tours after rfl ms answer

/-! ## Answers of one session -/

/-- Verified plans of the pool have the answers that follow from the same groups. -/
def Told (session : Session) (pool : List Plan)
    (answers : Plan → Except SessionError (List Match) → Prop) : Prop :=
  ∃ groups : GroupRows, groups.Grouped ∧ ∀ plan ∈ pool, plan.verify = .ok () →
    ∃ ms, plan.derive groups session.facts 0 = .ok ms ∧ answers plan (.ok ms)

section
variable {history : List Request} {pool : List Plan} (identified : Condition.Identified
  (history.flatMap Request.conditions ++ pool.flatMap (·.conditions)))
include identified

theorem exists_answer {evaluations : List (Plan × Visits)} (known : evaluations.map (·.1) ⊆ pool)
    {plan : Plan} (hplan : plan ∈ pool) (verified : plan.verify = .ok ()) (visits : Visits) :
    ∃ ms, ((start 0).run history).answerAfter evaluations plan visits = .ok ms := by
  have joined : (start 0).run (history ++ evaluations.map fun e => .evaluate e.1 e.2) =
      ((start 0).run history).runAll evaluations := List.foldl_append
  have asked : Condition.Identified ((history ++ evaluations.map fun e =>
      Request.evaluate e.1 e.2).flatMap Request.conditions ++ plan.conditions) := by
    rw [List.flatMap_append, List.append_assoc, List.flatMap_map]
    refine identified.mono_right fun d hd => ?_
    rw [Condition.partsAll_append, List.mem_append] at hd
    rcases hd with hd | hd
    · obtain ⟨c, hc, hd⟩ := Condition.mem_partsAll.1 hd
      obtain ⟨e, he, hc⟩ := List.mem_flatMap.1 hc
      exact Condition.mem_partsAll_flatMap (known (List.mem_map_of_mem he))
        (Condition.mem_partsAll.2 ⟨c, hc, hd⟩)
    · exact Condition.mem_partsAll_flatMap hplan hd
  rw [answerAfter, ← joined]
  exact exists_matches asked verified visits

/-- On the same tours what will be found can be foreseen. -/
theorem told_on (visits : Visits) :
    ((start 0).run history).Told pool (((start 0).run history).AnswersOn visits pool) := by
  have limit : ((start 0).run history).maxBindings = 0 := maxBindings_run _ _
  refine ⟨.renewed visits ((start 0).run history).groups, GroupRows.grouped_renewed visits _,
    fun plan hplan verified => ?_⟩
  have answers := ((start 0).run history).answersOn_renewed visits identified.right hplan
  rw [limit] at answers
  obtain ⟨ms, hms⟩ :=
    exists_answer identified (show [].map _ ⊆ pool from List.nil_subset _) hplan verified visits
  have found := (answers [] (List.nil_subset _)).symm.trans hms
  exact ⟨ms, found, found ▸ answers⟩

/-- On whatever tours what has been found can be told. -/
theorem told_in {evaluations : List (Plan × Visits)} (known : evaluations.map (·.1) ⊆ pool) :
    ((start 0).run history).Told pool (((start 0).run history).AnswersIn evaluations) := by
  have limit : ((start 0).run history).maxBindings = 0 := maxBindings_run _ _
  -- the run goes on until every plan of the pool has been evaluated
  let whole := evaluations ++ pool.map (·, Visits.ascending)
  have asked : ∀ e ∈ whole, e.1 ∈ pool := by
    intro e he
    rcases List.mem_append.1 he with he | he
    · exact known (List.mem_map_of_mem he)
    · obtain ⟨plan, hplan, rfl⟩ := List.mem_map.1 he
      exact hplan
  have whole_known : ∀ e ∈ whole, ∀ d ∈ Condition.partsAll e.1.conditions,
      d ∈ Condition.partsAll (pool.flatMap (·.conditions)) :=
    fun e he d hd => Condition.mem_partsAll_flatMap (asked e he) hd
  obtain ⟨-, told⟩ := ((start 0).run history).answers_runAll identified.right whole_known
  rw [limit] at told
  have known_before : ∀ before after : List (Plan × Visits), whole = before ++ after →
      before.map (·.1) ⊆ pool := by
    intro before after split plan hplan
    obtain ⟨e, he, rfl⟩ := List.mem_map.1 hplan
    exact asked e (split ▸ List.mem_append_left _ he)
  refine ⟨.kept (((start 0).run history).runAll whole).groups, GroupRows.grouped_kept _,
    fun plan hplan verified => ?_⟩
  obtain ⟨left, right, split⟩ := List.append_of_mem hplan
  have last : whole = (evaluations ++ left.map (·, Visits.ascending)) ++ (plan, .ascending) ::
      right.map (·, Visits.ascending) := by
    simp [whole, split]
  obtain ⟨ms, hms⟩ := exists_answer identified (known_before _ _ last) hplan verified .ascending
  have found := told _ plan .ascending _ last ms hms
  refine ⟨ms, found, fun before visits after here => ?_⟩
  have within : whole = before ++ (plan, visits) :: (after ++ pool.map (·, Visits.ascending)) := by
    simp [whole, here]
  obtain ⟨ms', hms'⟩ := exists_answer identified (known_before _ _ within) hplan verified visits
  rw [hms', ← told before plan visits _ within ms' hms', found]

end

end Session

end MatchAlgebra
