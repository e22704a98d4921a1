import MatchAlgebra.Proofs.Recomputation
import MatchAlgebra.Session.Basic

/-!
# Histories of a session

A session is asked to insert, update and retract facts and to evaluate plans, in any order.  The
partitions it keeps in between do not show: the next evaluation gives the matches that a session
without any partitions gives for the same facts (`evaluate_after_history`).  Each evaluation goes on
tours of its own.

The invariant of a run is that the store is sound.  Which collectors an id stands for can be read
off the conditions of the plans, since a condition is made once and conditions with one id are one
condition.
-/

namespace MatchAlgebra

/-! ## Matches up to spelling -/

/-- A weight without its spelling. -/
def Weight.sense : Weight → Int64 ⊕ Sense
  | .long n => .inl n
  | .decimal d => .inr (Value.decimal d).sense

theorem Weight.sense_inj {a b : Weight} : a.sense = b.sense ↔ (a == b) = true := by
  cases a with
  | long m =>
    cases b with
    | long n => exact Sum.inl.injEq m n ▸ beq_iff_eq.symm
    | decimal e => exact ⟨(fun h => by cases h), (fun h => by cases h)⟩
  | decimal d =>
    cases b with
    | long n => exact ⟨(fun h => by cases h), (fun h => by cases h)⟩
    | decimal e =>
      rw [sense, sense, Sum.inr.injEq, Value.sense_inj]
      rfl

namespace Match

/-- Equal values, equal weights and the same facts. -/
structure Alike (m other : Match) : Prop where
  values : m.values == other.values
  weight : m.weight == other.weight
  facts : m.facts = other.facts

def sense (m : Match) : List Sense × (Int64 ⊕ Sense) × List Nat :=
  (m.values.map Value.sense, m.weight.sense, m.facts)

theorem sense_inj {m other : Match} : m.sense = other.sense ↔ m.Alike other := by
  rw [sense, sense, Prod.mk.injEq, Prod.mk.injEq, Value.senses_inj, Weight.sense_inj]
  exact ⟨fun ⟨hv, hw, hf⟩ => ⟨hv, hw, hf⟩, fun ⟨hv, hw, hf⟩ => ⟨hv, hw, hf⟩⟩

end Match

/-- The same error, or matches that are alike one by one. -/
inductive SameAnswer :
    Except SessionError (List Match) → Except SessionError (List Match) → Prop where
  | error (e : SessionError) : SameAnswer (.error e) (.error e)
  | ok {ms others : List Match} (h : List.Forall₂ Match.Alike ms others) :
      SameAnswer (.ok ms) (.ok others)

theorem forall₂_alike_iff {ms others : List Match} :
    List.Forall₂ Match.Alike ms others ↔ ms.map Match.sense = others.map Match.sense := by
  simp only [map_eq_map_iff, Match.sense_inj]

theorem SameAnswer.of_map_eq {r other : Except SessionError (List Match)}
    (h : r.map (·.map Match.sense) = other.map (·.map Match.sense)) : SameAnswer r other := by
  cases r with
  | error e =>
    cases other with
    | error e' =>
      cases h
      exact .error e
    | ok others => cases h
  | ok ms =>
    cases other with
    | error e' => cases h
    | ok others => exact .ok (forall₂_alike_iff.2 (Except.ok.inj h))

namespace Plan

theorem matchOf_congr {plan : Plan} (hw : plan.weigher.Respects) {r r' : Row}
    (h : r.sense = r'.sense) :
    (plan.matchOf r).map Match.sense = (plan.matchOf r').map Match.sense := by
  have facts : r.facts = r'.facts := congrArg (·.2) h
  refine map_bind_congr (Row.read_congr h plan.visible) fun as bs hs => map_pure_congr ?_
  rw [Match.sense_inj]
  exact ⟨Value.senses_inj.1 hs, hw.weigh hs, by rw [facts]⟩

theorem inTurn_matchesOf (plan : Plan) : InTurn plan.matchOf plan.matchesOf :=
  ⟨rfl, fun _ _ => rfl⟩

theorem matchesOf_eq_ok_iff {plan : Plan} {rows : List Row} {ms : List Match} :
    plan.matchesOf rows = .ok ms ↔
      List.Forall₂ (fun row m => plan.matchOf row = .ok m) rows ms :=
  plan.inTurn_matchesOf.eq_ok_iff

theorem matchesOf_congr {plan : Plan} (hw : plan.weigher.Respects) {rows others : List Row}
    (h : Row.senses rows = Row.senses others) :
    (plan.matchesOf rows).map (·.map Match.sense) =
      (plan.matchesOf others).map (·.map Match.sense) :=
  plan.inTurn_matchesOf.congr plan.inTurn_matchesOf h fun _ _ => matchOf_congr hw

variable {collectorsOf : Nat → List Collector} {plan : Plan}

theorem evaluate_keeps {good : GroupStore → Prop}
    (h : ∀ d ∈ Condition.partsAll plan.conditions, d.Keeps good) (visits : Visits)
    (facts : List Fact) (limit : Nat) :
    Evaluation.Ensures good (plan.evaluate visits facts limit) fun _ => True :=
  (Condition.evaluateAll_keeps visits facts limit _ _ h).bind (fun _ _ => .ofExcept trivial)
    fun _ _ => trivial

theorem evaluate_recomputes
    (h : ∀ d ∈ Condition.partsAll plan.conditions, d.SelfAgrees collectorsOf)
    (hr : plan.Respects) (visits : Visits) (facts : List Fact) (limit : Nat) :
    Evaluation.Ensures (GroupStore.Sound collectorsOf) (plan.evaluate visits facts limit)
      fun r => r.map (·.map Match.sense) =
        (plan.derive .afresh facts limit).map (·.map Match.sense) :=
  (Condition.evaluateAll_recomputes visits facts limit rfl _ h hr.conditions).bind_congr
    fun _ _ hrows => .ofExcept (matchesOf_congr hr.weigher hrows)

end Plan

/-! ## What ids stand for -/

namespace Condition

/-- Conditions with one id are one condition, at whatever depth. -/
def Identified (cs : List Condition) : Prop :=
  ∀ c ∈ partsAll cs, ∀ d ∈ partsAll cs, c.id = d.id → c = d

/-- The collectors of the grouping with an id; none if the id is of no grouping. -/
def collectorsIn (cs : List Condition) (id : Nat) : List Collector :=
  match (partsAll cs).find? (·.id = id) with
  | some (.group _ grouping _) => grouping.collectors
  | _ => []

theorem Identified.selfAgrees {cs : List Condition} (h : Identified cs) {d : Condition}
    (hd : d ∈ partsAll cs) : d.SelfAgrees (collectorsIn cs) := by
  cases d with
  | step id s => trivial
  | group id grouping input =>
    have found : (partsAll cs).find? (·.id = id) = some (.group id grouping input) := by
      cases hc : (partsAll cs).find? (·.id = id) with
      | none => exact absurd (decide_eq_true rfl) (List.find?_eq_none.1 hc _ hd)
      | some c =>
        have hid : c.id = id := by simpa using List.find?_some hc
        rw [h c (List.mem_of_find?_eq_some hc) _ hd hid]
    rw [SelfAgrees, collectorsIn, found]

/-- It is enough that all parts are listed with different ids. -/
theorem Identified.of_subset {cs : List Condition} (listed : List Condition)
    (h : partsAll cs ⊆ listed) (different : (listed.map id).Nodup) : Identified cs :=
  fun _ hc _ hd hid => List.inj_on_of_nodup_map different (h hc) (h hd) hid

theorem Identified.mono {cs ds : List Condition} (h : Identified cs)
    (sub : ∀ d ∈ partsAll ds, d ∈ partsAll cs) : Identified ds :=
  fun c hc d hd => h c (sub c hc) d (sub d hd)

theorem Identified.right {cs ds : List Condition} (h : Identified (cs ++ ds)) : Identified ds :=
  h.mono (partsAll_subset_right cs ds)

theorem Identified.mono_right {cs ds es : List Condition} (h : Identified (cs ++ ds))
    (sub : ∀ d ∈ partsAll es, d ∈ partsAll ds) : Identified (cs ++ es) := by
  refine h.mono ?_
  rw [partsAll_append, partsAll_append, List.forall_mem_append]
  exact ⟨fun d hd => List.mem_append_left _ hd, fun d hd => List.mem_append_right _ (sub d hd)⟩

/-- Conditions that share no id go together. -/
theorem Identified.append {cs ds : List Condition} (h : Identified cs) (h' : Identified ds)
    (apart : ∀ c ∈ partsAll cs, ∀ d ∈ partsAll ds, c.id ≠ d.id) : Identified (cs ++ ds) := by
  intro c hc d hd same
  rw [partsAll_append, List.mem_append] at hc hd
  rcases hc with hc | hc
  · rcases hd with hd | hd
    · exact h c hc d hd same
    · exact absurd same (apart c hc d hd)
  · rcases hd with hd | hd
    · exact absurd same.symm (apart d hd c hc)
    · exact h' c hc d hd same

theorem mem_partsAll_flatMap {α : Type} {f : α → List Condition} {as : List α} {a : α}
    (ha : a ∈ as) {d : Condition} (hd : d ∈ partsAll (f a)) : d ∈ partsAll (as.flatMap f) := by
  induction as with
  | nil => cases ha
  | cons b as ih =>
    rw [List.flatMap_cons, partsAll_append, List.mem_append]
    rcases List.mem_cons.1 ha with rfl | ha
    · exact .inl hd
    · exact .inr (ih ha)

/-- One of many plans. -/
theorem Identified.of_mem {cs : List Condition} {pool : List Plan}
    (h : Identified (cs ++ pool.flatMap (·.conditions))) {plan : Plan} (hplan : plan ∈ pool) :
    Identified (cs ++ plan.conditions) :=
  h.mono_right fun _ hd => mem_partsAll_flatMap hplan hd

end Condition

/-! ## Requests -/

inductive Request where
  | insert (type : FactType) (value : Value)
  | update (handle : Nat) (value : Value)
  | retract (handle : Nat)
  | evaluate (plan : Plan) (visits : Visits := .ascending)

/-- The conditions that a request hands to the session. -/
def Request.conditions : Request → List Condition
  | .evaluate plan _ => plan.conditions
  | _ => []

/-- What a history asked about is among the conditions that are around with it. -/
theorem Request.mem_partsAll_of_asked {history : List Request} (cs : List Condition) :
    ∀ request ∈ history, ∀ d ∈ Condition.partsAll request.conditions,
      d ∈ Condition.partsAll (history.flatMap Request.conditions ++ cs) := by
  intro request hrequest d hd
  exact Condition.partsAll_subset_left _ _ (Condition.mem_partsAll_flatMap hrequest hd)

namespace Session

/-- The session after a request; a refused one changes nothing. -/
def perform (session : Session) : Request → Session
  | .insert type value => (session.insert type value).1
  | .update handle value => (session.update handle value).toOption.getD session
  | .retract handle => ((session.retract handle).toOption.map (·.1)).getD session
  | .evaluate plan visits => (session.evaluate plan visits).2

def run (session : Session) (requests : List Request) : Session := requests.foldl perform session

/-- A handle that is not there is no exception: no fact has it. -/
theorem perform_update (session : Session) (handle : Nat) (value : Value) :
    session.perform (.update handle value) = { session with
      facts := session.facts.map fun fact =>
        if fact.handle = handle then { fact with value } else fact } := by
  show (session.update handle value).toOption.getD session = _
  unfold update
  by_cases known : session.facts.any (·.handle = handle) = true
  · rw [if_pos known]
    rfl
  · rw [if_neg known]
    have same : session.facts.map (fun fact =>
        if fact.handle = handle then { fact with value } else fact) = session.facts := by
      refine (List.map_congr_left fun fact hfact => ?_).trans (List.map_id _)
      have other : fact.handle ≠ handle := fun heq =>
        known (List.any_eq_true.2 ⟨fact, hfact, decide_eq_true heq⟩)
      rw [if_neg other, id]
    rw [same]
    rfl

theorem perform_retract (session : Session) (handle : Nat) :
    session.perform (.retract handle) = { session with
      facts := session.facts.filter (·.handle ≠ handle) } := by
  show ((session.retract handle).toOption.map (·.1)).getD session = _
  unfold retract
  cases found : session.get? handle with
  | some value => rfl
  | none =>
    have same : session.facts.filter (·.handle ≠ handle) = session.facts := by
      rw [get?, Option.map_eq_none_iff, List.find?_eq_none] at found
      refine List.filter_eq_self.2 fun fact hfact => ?_
      simpa using found fact hfact
    rw [same]
    rfl

/-- The facts stand in the order of their handles, and the next handle is above them all. -/
structure Ordered (session : Session) : Prop where
  facts : session.facts.Pairwise fun a b => a.handle < b.handle
  below : ∀ fact ∈ session.facts, fact.handle < session.nextHandle

theorem ordered_start (limit : Nat) : (start limit).Ordered :=
  ⟨List.Pairwise.nil, fun _ hfact => absurd hfact List.not_mem_nil⟩

theorem Ordered.perform {session : Session} (h : session.Ordered) (request : Request) :
    (session.perform request).Ordered := by
  cases request with
  | insert type value =>
    refine ⟨List.pairwise_append.2 ⟨h.facts, List.pairwise_singleton _ _, ?_⟩, ?_⟩
    · intro fact hfact new hnew
      rw [List.mem_singleton.1 hnew]
      exact h.below fact hfact
    · intro fact hfact
      rcases List.mem_append.1 hfact with hfact | hfact
      · exact Nat.lt_succ_of_lt (h.below fact hfact)
      · rw [List.mem_singleton.1 hfact]
        exact Nat.lt_succ_self _
  | update handle value =>
    have same : ∀ fact : Fact,
        (if fact.handle = handle then { fact with value } else fact).handle = fact.handle := by
      intro fact
      split <;> rfl
    rw [perform_update]
    refine ⟨List.pairwise_map.2 (h.facts.imp fun hab => ?_), fun fact hfact => ?_⟩
    · rw [same, same]
      exact hab
    · obtain ⟨old, hold, rfl⟩ := List.mem_map.1 hfact
      rw [same]
      exact h.below old hold
  | retract handle =>
    rw [perform_retract]
    exact ⟨h.facts.filter _, fun fact hfact => h.below fact (List.mem_filter.1 hfact).1⟩
  | evaluate plan visits => exact ⟨h.facts, h.below⟩

theorem Ordered.run {session : Session} (h : session.Ordered) (requests : List Request) :
    (session.run requests).Ordered := by
  induction requests generalizing session with
  | nil => exact h
  | cons request requests ih => exact ih (h.perform request)

/-- The limit stays as it was set at the start. -/
theorem maxBindings_run (session : Session) (requests : List Request) :
    (session.run requests).maxBindings = session.maxBindings := by
  induction requests generalizing session with
  | nil => rfl
  | cons request requests ih =>
    refine (ih _).trans ?_
    cases request with
    | insert type value => rfl
    | update handle value => rw [perform_update]
    | retract handle => rw [perform_retract]
    | evaluate plan visits => rfl

variable {good : GroupStore → Prop} {session : Session}

theorem keeps_perform (h : good session.groups) {request : Request}
    (hr : ∀ d ∈ Condition.partsAll request.conditions, d.Keeps good) :
    good (session.perform request).groups := by
  cases request with
  | insert type value => exact h
  | update handle value =>
    rw [perform_update]
    exact h
  | retract handle =>
    rw [perform_retract]
    exact h
  | evaluate plan visits =>
    exact (Plan.evaluate_keeps hr visits session.facts session.maxBindings _ h).2

/-- The store stays good whatever the session is asked to do. -/
theorem keeps_run (h : good session.groups) {requests : List Request}
    (hr : ∀ request ∈ requests, ∀ d ∈ Condition.partsAll request.conditions, d.Keeps good) :
    good (session.run requests).groups := by
  induction requests generalizing session with
  | nil => exact h
  | cons request requests ih =>
    rw [List.forall_mem_cons] at hr
    exact ih (keeps_perform h hr.1) hr.2

/-- After any history the store is sound, and the next plan has the collectors that its ids stand
for. -/
theorem sound_after (limit : Nat) {history : List Request} {plan : Plan}
    (identified : Condition.Identified (history.flatMap Request.conditions ++ plan.conditions)) :
    ∃ collectorsOf, GroupStore.Sound collectorsOf ((start limit).run history).groups ∧
      ∀ d ∈ Condition.partsAll plan.conditions, d.SelfAgrees collectorsOf := by
  have agrees : ∀ d ∈ Condition.partsAll (history.flatMap Request.conditions ++ plan.conditions),
      d.SelfAgrees _ := fun d hd => identified.selfAgrees hd
  rw [Condition.partsAll_append, List.forall_mem_append] at agrees
  obtain ⟨earlier, own⟩ := agrees
  refine ⟨_, keeps_run GroupStore.sound_empty fun request hrequest d hd => ?_, own⟩
  exact (earlier d (Condition.mem_partsAll_flatMap hrequest hd)).keeps

/-- **Incremental grouping is recomputation.**  After any history the matches of a plan, or its
error, are those that a session without partitions gives for the same facts, whatever tours either
goes on. -/
theorem evaluate_after_history (limit : Nat) (history : List Request) (plan : Plan)
    (identified : Condition.Identified (history.flatMap Request.conditions ++ plan.conditions))
    (respects : plan.Respects) (visits visits' : Visits) :
    let session := (start limit).run history
    SameAnswer (session.evaluate plan visits).1
      ({ session with groups := ∅ }.evaluate plan visits').1 := by
  intro session
  obtain ⟨collectorsOf, sound, own⟩ := sound_after limit identified
  have recomputes := fun v =>
    Plan.evaluate_recomputes own respects v session.facts session.maxBindings
  have kept := (recomputes visits _ sound).1
  have fresh := (recomputes visits' _ GroupStore.sound_empty).1
  exact .of_map_eq (kept.trans fresh.symm)

/-- Two plans share a grouping by the first component; its groups shrink and change in between, on
tours of both kinds. -/
theorem evaluate_after_history_shared :
    let fact : Variable := ⟨⟨1, 1⟩, "fact_1", .fact ⟨"T"⟩⟩
    let source : Variable := ⟨⟨1, 2⟩, "source_2", .tuple 1⟩
    let key : Variable := ⟨⟨1, 3⟩, "groupKey_3", .value⟩
    let total : Variable := ⟨⟨1, 4⟩, "result_4", .value⟩
    let group : Condition := .group 3
      ⟨[fact], some source, some ⟨key, valueAt 0⟩, [⟨⟨.toSortedList, valueAt 0⟩, total⟩]⟩
      [.step 1 (.pattern fact ⟨"T"⟩), .step 2 (.bind source [fact] wholeTuple)]
    let plan : Plan := ⟨none, [group], [key, total], .unit⟩
    let totals : Plan := ⟨none, [group], [total], .unit⟩
    let history : List Request :=
      [.insert ⟨"T"⟩ (.decimal ⟨10, 1⟩), .insert ⟨"T"⟩ (.decimal ⟨100, 2⟩), .evaluate totals,
        .update 1 (.int 7), .evaluate plan .descending, .retract 2]
    let session := (start 0).run history
    Condition.Identified (history.flatMap Request.conditions ++ plan.conditions) ∧
      plan.Respects ∧
      SameAnswer (session.evaluate plan .descending).1
        ({ session with groups := ∅ }.evaluate plan .ascending).1 := by
  intro fact source key total group plan totals history session
  have identified :
      Condition.Identified (history.flatMap Request.conditions ++ plan.conditions) := by
    intro c hc d hd hcd
    simp only [history, plan, totals, group, List.flatMap_cons, List.flatMap_nil,
      Request.conditions, Condition.partsAll, Condition.parts, List.cons_append, List.nil_append,
      List.mem_cons, List.not_mem_nil, or_false] at hc hd
    rcases hc with rfl | rfl | rfl | rfl | rfl | rfl | rfl | rfl | rfl <;>
      rcases hd with rfl | rfl | rfl | rfl | rfl | rfl | rfl | rfl | rfl <;>
      first | rfl | cases hcd
  have respects : plan.Respects := by
    refine ⟨fun d hd => ?_, trivial⟩
    simp only [plan, group, Condition.partsAll, Condition.parts, List.cons_append, List.nil_append,
      List.mem_cons, List.not_mem_nil, or_false] at hd
    rcases hd with rfl | rfl | rfl
    · refine ⟨fun k hk => ?_, fun c hc => ?_⟩
      · cases hk
        exact respects_valueAt 0
      · cases List.mem_singleton.1 hc
        exact ⟨respects_valueAt 0, trivial⟩
    · trivial
    · exact respects_wholeTuple
  exact ⟨identified, respects,
    evaluate_after_history 0 history plan identified respects .descending .ascending⟩

end Session

end MatchAlgebra
