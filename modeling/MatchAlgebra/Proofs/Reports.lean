import MatchAlgebra.Constraints.Report
import MatchAlgebra.Proofs.Existence
import MatchAlgebra.Proofs.Handles
import MatchAlgebra.Proofs.Stages
import MatchAlgebra.Proofs.Weights

/-!
# A report is the sum of its parts

All constraints of a report are evaluated in one session, one after the other, each on tours of its
own.  Since the facts stay as they are, each finds what it finds alone in a fresh session with the
same facts.  The matches are the same up to spelling, and on the same tours exactly:

    reportAll session visits plans = .ok reports  →
      SameAnswer (fresh.evaluate plan tours).1 (.ok report.found)    (ConstraintReport.Tells.found)

The totals and the score are exact sums (`Weight.value_sum`), and a fact is indicted once for each
match that lists it, since a match lists no fact twice (`Report.count_facts`).
-/

namespace MatchAlgebra

/-! ## Counting -/

namespace Report

/-- A handle is counted as often as it occurs, and not at all if it does not occur. -/
theorem getElem?_countHandles (handles : List Nat) (handle : Nat) :
    (countHandles handles)[handle]? =
      if handles.count handle = 0 then none else some (handles.count handle) := by
  induction handles using List.reverseRecOn with
  | nil => simp [countHandles]
  | append_singleton handles last ih =>
    have snoc : countHandles (handles ++ [last]) =
        (countHandles handles).insert last ((countHandles handles).getD last 0 + 1) := by
      rw [countHandles, List.foldl_append]
      rfl
    rw [snoc, Std.TreeMap.getElem?_insert, List.count_append, List.count_singleton]
    by_cases same : last = handle
    · subst same
      have before : (countHandles handles).getD last 0 = handles.count last := by
        rw [Std.TreeMap.getD_eq_getD_getElem?, ih]
        split <;> simp_all
      simp [before]
    · simp [same, ih]

/-- Matches that list no fact twice list a fact as often as there are matches that list it. -/
theorem count_facts {ms : List Match} (once : ∀ m ∈ ms, m.facts.Nodup) (handle : Nat) :
    (ms.flatMap (·.facts)).count handle = ms.countP (handle ∈ ·.facts) := by
  induction ms with
  | nil => rfl
  | cons m ms ih =>
    obtain ⟨first, rest⟩ := List.forall_mem_cons.1 once
    rw [List.flatMap_cons, List.count_append, List.countP_cons, ih rest, Nat.add_comm]
    by_cases listed : handle ∈ m.facts
    · rw [List.count_eq_one_of_mem first listed, if_pos (decide_eq_true listed)]
    · rw [List.count_eq_zero.2 listed, if_neg (by simpa using listed)]

end Report

/-! ## Plans evaluated in turn -/

/-- The facts of a match stand in ascending order, each once. -/
theorem Plan.nodup_facts_of_matchesOf {plan : Plan} {rows : List Row} {ms : List Match}
    (hms : plan.matchesOf rows = .ok ms) : ∀ m ∈ ms, m.facts.Nodup := by
  intro m hm
  obtain ⟨row, -, hrow⟩ := exists_related_of_mem (matchesOf_eq_ok_iff.1 hms) hm
  rw [(matchOf_eq_ok_iff.1 hrow).2.2]
  exact (HandleSet.ascending_pairwise row.facts).imp Nat.ne_of_lt

/-- What a report says of a plan follows from what holds of the session when its turn comes. -/
theorem reportAll_in_turn {holds : Session → Prop} {told : Plan → List Match → Prop}
    {visits : Nat → Visits} {plans : List Plan}
    (step : ∀ session, holds session → ∀ plan ∈ plans, ∀ n,
      (∀ found, (session.evaluate plan (visits n)).1 = .ok found → told plan found) ∧
        holds (session.evaluate plan (visits n)).2)
    {session : Session} (start : holds session) {reports : List ConstraintReport}
    (h : reportAll session visits plans = .ok reports) :
    List.Forall₂ (fun plan report => ∃ found, report = .ofMatches plan found ∧ told plan found)
      plans reports := by
  induction plans generalizing session reports with
  | nil =>
    cases h
    exact .nil
  | cons plan plans ih =>
    obtain ⟨here, rest⟩ := step session start plan List.mem_cons_self plans.length
    obtain ⟨found, hfound, h⟩ := bind_eq_ok.1 h
    obtain ⟨others, hothers, h⟩ := bind_eq_ok.1 h
    cases h
    have later := fun session hold plan hplan n =>
      step session hold plan (List.mem_cons_of_mem _ hplan) n
    exact .cons ⟨found, rfl, here found hfound⟩ (ih later rest hothers)

namespace Session

theorem nodup_facts_of_evaluate {session : Session} {plan : Plan} {visits : Visits}
    {ms : List Match} (h : (session.evaluate plan visits).1 = .ok ms) :
    ∀ m ∈ ms, m.facts.Nodup := by
  obtain ⟨rows, store, -, made⟩ := Evaluation.run_bind_eq_ok.1
    (show (plan.evaluate visits _ _).run.run session.groups = (.ok ms, _) from Prod.ext h rfl)
  exact plan.nodup_facts_of_matchesOf (Prod.mk.inj made).1

/-- Since the earlier session plans of the pool have been evaluated, so that the partitions are
sound; and if all went on the same tours then that is all that happened to them. -/
structure Reporting (session : Session) (visits : Nat → Visits)
    (collectorsOf : Nat → List Collector) (pool : List Condition) (later : Session) : Prop where
  facts : later.facts = session.facts
  maxBindings : later.maxBindings = session.maxBindings
  sound : GroupStore.Sound collectorsOf later.groups
  onTours : ∀ tours, (∀ n, visits n = tours) → session.OnlyEvaluated tours pool later

/-- Matches that were found are those of the plan evaluated in a session, where it respects
equality, and exactly so if everything is evaluated on the same tours. -/
structure Finds (session : Session) (visits : Nat → Visits) (plan : Plan) (found : List Match) :
    Prop where
  alike : plan.Respects → ∀ tours, SameAnswer (session.evaluate plan tours).1 (.ok found)
  onTours : ∀ tours, (∀ n, visits n = tours) → (session.evaluate plan tours).1 = .ok found

theorem Reporting.evaluate {session later : Session} {visits : Nat → Visits}
    {collectorsOf : Nat → List Collector} {pool : List Condition}
    (h : session.Reporting visits collectorsOf pool later) (sound : GroupStore.Sound collectorsOf
      session.groups) (identified : Condition.Identified pool) {plan : Plan}
    (known : ∀ d ∈ Condition.partsAll plan.conditions, d ∈ Condition.partsAll pool)
    (agrees : ∀ d ∈ Condition.partsAll plan.conditions, d.SelfAgrees collectorsOf) (n : Nat) :
    (∀ found, (later.evaluate plan (visits n)).1 = .ok found →
      session.Finds visits plan found ∧ ∀ m ∈ found, m.facts.Nodup) ∧
      session.Reporting visits collectorsOf pool (later.evaluate plan (visits n)).2 := by
  refine ⟨fun found hfound => ⟨⟨fun respects tours => ?_, fun tours same => ?_⟩,
    nodup_facts_of_evaluate hfound⟩, h.facts, h.maxBindings, ?_, fun tours same => ?_⟩
  · have recomputes := fun v => plan.evaluate_recomputes agrees respects v session.facts
      session.maxBindings
    have first := (recomputes tours _ sound).1
    have last := (recomputes (visits n) _ h.sound).1
    have later_found : ((plan.evaluate (visits n) later.facts later.maxBindings).run.run
      later.groups).1 = .ok found := hfound
    rw [h.facts, h.maxBindings] at later_found
    rw [later_found] at last
    exact .of_map_eq (first.trans last.symm)
  · have start : session.OnlyEvaluated tours pool session := ⟨rfl, rfl, .refl _⟩
    obtain ⟨alone, -⟩ := start.evaluate identified known
    obtain ⟨answer, -⟩ := (h.onTours tours same).evaluate identified known
    rw [same] at hfound
    exact alone.trans (answer.symm.trans hfound)
  · exact (plan.evaluate_keeps (fun d hd => (agrees d hd).keeps) (visits n) later.facts
      later.maxBindings _ h.sound).2
  · obtain ⟨-, onward⟩ := (h.onTours tours same).evaluate identified known
    rw [same]
    exact onward

/-- The handles of inserted facts are the next numbers, in the order of the facts. -/
theorem insertAll_eq (session : Session) (facts : List (FactType × Value)) :
    session.insertAll facts =
      ({ session with
          facts := session.facts ++ (facts.zipIdx session.nextHandle).map
            fun ((type, value), handle) => ⟨handle, type, value⟩
          nextHandle := session.nextHandle + facts.length },
        List.range' session.nextHandle facts.length) := by
  induction facts generalizing session with
  | nil => simp [insertAll]
  | cons first facts ih =>
    simp [insertAll, ih, insert, List.zipIdx_cons, List.range'_succ, Nat.add_assoc, Nat.add_comm 1]

/-- A fresh session that holds the facts. -/
def holding (settings : SessionSettings) (facts : List (FactType × Value)) : Session :=
  ((start settings.maxBindings).insertAll facts).1

end Session

/-! ## The parts of a report -/

/-- What a report says of a plan is what the plan finds in the session. -/
structure ConstraintReport.Tells (session : Session) (visits : Nat → Visits) (plan : Plan)
    (part : ConstraintReport) : Prop where
  name : part.name = plan.name.getD "anonymous"
  found : session.Finds visits plan part.found
  count : part.matchCount = part.found.length
  /-- the total is the exact sum of the weights -/
  total : part.total.value = (part.found.map (·.weight.value)).sum

/-- The report says of each plan what the plan finds alone, and sums that up. -/
structure Report.SumsUp (report : Report) (settings : SessionSettings) (visits : Nat → Visits)
    (plans : List Plan) (facts : List (FactType × Value)) : Prop where
  /-- the facts have the handles in the order in which they were given -/
  handles : report.facts = List.range' 1 facts.length
  held : (Session.holding settings facts).facts =
    (facts.zip report.facts).map fun ((type, value), handle) => ⟨handle, type, value⟩
  parts : List.Forall₂ (ConstraintReport.Tells (Session.holding settings facts) visits) plans
    report.constraints
  /-- the score is the exact sum of the weights of all matches -/
  score : report.score.value =
    ((report.constraints.flatMap (·.found)).map (·.weight.value)).sum
  /-- a fact is indicted by each match that lists it; facts that none lists are not there -/
  indictments : ∀ handle, report.indictments[handle]? =
    let count := (report.constraints.flatMap (·.found)).countP (handle ∈ ·.facts)
    if count = 0 then none else some count

namespace Report

variable {settings : SessionSettings} {visits : Nat → Visits} {plans : List Plan}
  {facts : List (FactType × Value)} {report : Report}

/-- The sum of exact totals is the sum over all matches. -/
theorem score_eq {parts : List ConstraintReport}
    (totals : ∀ part ∈ parts, part.total.value = (part.found.map (·.weight.value)).sum) :
    (Weight.sum (parts.map (·.total))).value =
      ((parts.flatMap (·.found)).map (·.weight.value)).sum := by
  rw [Weight.value_sum, List.map_map]
  induction parts with
  | nil => rfl
  | cons part parts ih =>
    obtain ⟨first, rest⟩ := List.forall_mem_cons.1 totals
    rw [List.map_cons, List.sum_cons, ih rest, List.flatMap_cons, List.map_append,
      List.sum_append, ← first]
    rfl

/-- **A report is the sum of its parts.** -/
theorem sumsUp_of_given (identified : Condition.Identified (plans.flatMap (·.conditions)))
    (h : given settings plans facts visits = .ok report) :
    report.SumsUp settings visits plans facts := by
  obtain ⟨parts, hparts, h⟩ := bind_eq_ok.1 h
  cases h
  have inserted := Session.insertAll_eq (Session.start settings.maxBindings) facts
  have handles : ((Session.start settings.maxBindings).insertAll facts).2 =
      List.range' 1 facts.length := congrArg Prod.snd inserted
  have sound : GroupStore.Sound (Condition.collectorsIn (plans.flatMap (·.conditions)))
      (Session.holding settings facts).groups := by
    rw [Session.holding, inserted]
    exact GroupStore.sound_empty
  have start : (Session.holding settings facts).Reporting visits _
      (plans.flatMap (·.conditions)) (Session.holding settings facts) :=
    ⟨rfl, rfl, sound, fun _ _ => ⟨rfl, rfl, .refl _⟩⟩
  have known : ∀ plan ∈ plans, ∀ d ∈ Condition.partsAll plan.conditions,
      d ∈ Condition.partsAll (plans.flatMap (·.conditions)) :=
    fun plan hplan d hd => Condition.mem_partsAll_flatMap hplan hd
  have found := reportAll_in_turn (fun session reporting plan hplan n =>
    reporting.evaluate sound identified (known plan hplan)
      (fun d hd => identified.selfAgrees (known plan hplan d hd)) n) start hparts
  have tells : List.Forall₂ (ConstraintReport.Tells (Session.holding settings facts) visits) plans
      parts := by
    refine found.imp ?_
    rintro plan _ ⟨ms, rfl, alone, -⟩
    refine ⟨rfl, alone, rfl, ?_⟩
    rw [ConstraintReport.ofMatches, Weight.value_sum, List.map_map]
    rfl
  have once : ∀ m ∈ parts.flatMap (·.found), m.facts.Nodup := by
    intro m hm
    obtain ⟨part, hpart, hm⟩ := List.mem_flatMap.1 hm
    obtain ⟨plan, -, ms, rfl, -, once⟩ := exists_related_of_mem found hpart
    exact once m hm
  refine ⟨handles, ?_, tells, score_eq fun part hpart => ?_, fun handle => ?_⟩
  · rw [Session.holding, inserted, List.zipIdx_eq_zip_range']
    rfl
  · obtain ⟨plan, -, told⟩ := exists_related_of_mem tells hpart
    exact told.total
  · show (countHandles (parts.flatMap fun part => part.found.flatMap (·.facts)))[handle]? = _
    rw [getElem?_countHandles, ← List.flatMap_assoc, count_facts once]

/-- The total of the first plan does not fit into 64 bits, and two plans share a grouping, which
they visit on different tours. -/
theorem sumsUp_of_given_overflow :
    let shift : Variable := ⟨⟨1, 1⟩, "shift_1", .fact ⟨"Shift"⟩⟩
    let other : Variable := ⟨⟨2, 1⟩, "shift_1", .fact ⟨"Shift"⟩⟩
    let source : Variable := ⟨⟨2, 2⟩, "source_2", .tuple 1⟩
    let key : Variable := ⟨⟨2, 3⟩, "groupKey_3", .value⟩
    let count : Variable := ⟨⟨2, 4⟩, "result_4", .value⟩
    let group : Condition := .group 4
      ⟨[other], some source, some ⟨key, valueAt 0⟩, [⟨⟨.count, valueAt 0⟩, count⟩]⟩
      [.step 2 (.pattern other ⟨"Shift"⟩), .step 3 (.bind source [other] wholeTuple)]
    let plans : List Plan :=
      [⟨some "each", [.step 1 (.pattern shift ⟨"Shift"⟩)], [shift],
          .long fun _ => 9223372036854775807⟩,
        ⟨some "grouped", [group], [key, count], .decimal fun _ => ⟨5, 1⟩⟩,
        ⟨some "counted", [group], [count], .unit⟩]
    let facts : List (FactType × Value) :=
      [(⟨"Shift"⟩, .int 7), (⟨"Break"⟩, .int 7), (⟨"Shift"⟩, .int 7)]
    let visits : Nat → Visits := fun n => if n = 1 then .descending else .ascending
    Condition.Identified (plans.flatMap (·.conditions)) ∧
      ∃ report, given {} plans facts visits = .ok report ∧
        report.score.toDecimal = ⟨184467440737095516155, 1⟩ ∧
        report.SumsUp {} visits plans facts := by
  intro shift other source key count group plans facts visits
  have identified : Condition.Identified (plans.flatMap (·.conditions)) :=
    .of_subset [.step 1 (.pattern shift ⟨"Shift"⟩), group, .step 2 (.pattern other ⟨"Shift"⟩),
      .step 3 (.bind source [other] wholeTuple)]
      (by simp [plans, group, Condition.partsAll, Condition.parts]) (by decide)
  have score : (given {} plans facts visits).toOption.map (·.score.toDecimal) =
      some ⟨184467440737095516155, 1⟩ := by
    decide +kernel
  cases h : given {} plans facts visits with
  | error e =>
    rw [h] at score
    cases score
  | ok report =>
    rw [h] at score
    exact ⟨identified, report, rfl, Option.some.inj score, sumsUp_of_given identified h⟩

end Report

end MatchAlgebra
