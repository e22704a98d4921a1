import MatchAlgebra.Proofs.Alteration
import MatchAlgebra.Proofs.Built

/-!
# Expressions built with altered functions

When the functions that operations are given are altered on lists that are longer or shorter than
the operand has values, the same expressions are built: the same variables, ids and nodes, and
conditions with altered functions.  So they are compiled into altered plans:

    Rebuilt s ps  →  ((t, e), (t', e')) ∈ ps  →  (e.toPlan w).AltersTo (e'.toPlan w')      (toPlan)

Builds do not look into functions.  Whether one chain was grown from another shows at the numbers of
nodes, and conditions are compared by their ids.
-/

namespace MatchAlgebra

/-! ## Chains -/

/-- Chains of the same nodes, with elements that correspond. -/
inductive Chain.Alike {α β : Type} (R : α → β → Prop) : Chain α → Chain β → Prop
  | empty : Alike R .empty .empty
  | link {previous : Chain α} {previous' : Chain β} (h : Alike R previous previous')
      (node length : Nat) {a : α} {b : β} (last : R a b) :
      Alike R (.link previous node length a) (.link previous' node length b)

namespace Chain

variable {α β : Type} {R : α → β → Prop} {c start : Chain α} {c' start' : Chain β}

namespace Alike

theorem length_eq (h : Alike R c c') : c.length = c'.length := by
  cases h <;> rfl

theorem node?_eq (h : Alike R c c') : c.node? = c'.node? := by
  cases h <;> rfl

theorem newestFirst (h : Alike R c c') : List.Forall₂ R c.newestFirst c'.newestFirst := by
  induction h with
  | empty => exact .nil
  | link _ _ _ last ih => exact .cons last ih

theorem oldestFirst (h : Alike R c c') : List.Forall₂ R c.oldestFirst c'.oldestFirst :=
  List.forall₂_reverse_iff.2 h.newestFirst

theorem append (h : Alike R c c') (node : Nat) {a : α} {b : β} (hab : R a b) :
    Alike R (c.append node a) (c'.append node b) := by
  rw [Chain.append, Chain.append, h.length_eq]
  exact .link h _ _ hab

theorem beginning (h : Alike R c c') (target : Nat) :
    Alike R (c.beginning target) (c'.beginning target) := by
  induction h with
  | empty => exact .empty
  | link h node length last ih =>
    rw [Chain.beginning, Chain.beginning]
    split
    · exact .link h node length last
    · exact ih

theorem grownFrom_eq (h : Alike R c c') (hstart : Alike R start start') :
    c.grownFrom start = c'.grownFrom start' := by
  rw [grownFrom, grownFrom, hstart.length_eq, (h.beginning _).node?_eq, hstart.node?_eq]

end Alike

variable [BEq α] [BEq β]

/-- Chains under construction that are alike. -/
structure Growth.Alike (R : α → β → Prop) (g : Growth α) (g' : Growth β) : Prop where
  chain : Chain.Alike R g.chain g'.chain
  seen : List.Forall₂ R g.seen g'.seen
  next : g.next = g'.next

section
variable (beq : ∀ a b a' b', R a b → R a' b' → (a == a') = (b == b'))
include beq

theorem contains_eq {as : List α} {bs : List β} (h : List.Forall₂ R as bs) {a : α} {b : β}
    (hab : R a b) : as.contains a = bs.contains b := by
  induction h with
  | nil => rfl
  | cons hhead _ ih => rw [List.contains_cons, List.contains_cons, beq _ _ _ _ hab hhead, ih]

theorem Growth.Alike.add {g : Growth α} {g' : Growth β} (h : g.Alike R g') {a : α} {b : β}
    (hab : R a b) : (g.add a).Alike R (g'.add b) := by
  rw [Growth.add, Growth.add, contains_eq beq h.seen hab]
  split
  · exact h
  · rw [h.next]
    exact ⟨h.chain.append _ hab, .cons hab h.seen, rfl⟩

theorem Growth.Alike.foldl_add {g : Growth α} {g' : Growth β} (h : g.Alike R g') {as : List α}
    {bs : List β} (hab : List.Forall₂ R as bs) :
    (as.foldl Growth.add g).Alike R (bs.foldl Growth.add g') := by
  induction hab generalizing g g' with
  | nil => exact h
  | cons hhead _ ih => exact ih (h.add beq hhead)

theorem Growth.Alike.merge {g : Growth α} {g' : Growth β} (h : g.Alike R g')
    (hc : Chain.Alike R c c') : (g.merge c).Alike R (g'.merge c') := by
  rw [Growth.merge, Growth.merge, hc.grownFrom_eq h.chain, h.chain.grownFrom_eq hc]
  split
  · refine ⟨hc, List.rel_append ?_ h.seen, h.next⟩
    rw [hc.length_eq, h.chain.length_eq]
    exact List.forall₂_take _ hc.newestFirst
  · split
    · exact h
    · exact h.foldl_add beq hc.oldestFirst

/-- Unions do not look into the elements. -/
theorem Alike.union {cs : List (Chain α)} {cs' : List (Chain β)}
    (h : List.Forall₂ (Chain.Alike R) cs cs') (next : Nat) :
    Chain.Alike R (Chain.union cs next).1 (Chain.union cs' next).1 ∧
      (Chain.union cs next).2 = (Chain.union cs' next).2 := by
  have merged : ∀ (g : Growth α) (g' : Growth β), g.Alike R g' →
      (cs.foldl Growth.merge g).Alike R (cs'.foldl Growth.merge g') := by
    induction h with
    | nil => exact fun _ _ hg => hg
    | cons hc _ ih => exact fun _ _ hg => ih _ _ (hg.merge beq hc)
  have last := merged ⟨.empty, [], next⟩ ⟨.empty, [], next⟩ ⟨.empty, .nil, rfl⟩
  exact ⟨last.chain, last.next⟩

end

end Chain

/-! ## Conditions and logs -/

namespace Condition.AltersTo

variable {c c' d d' : Condition}

theorem id_eq (h : c.AltersTo c') : c.id = c'.id := by
  cases h <;> rfl

/-- Conditions are compared by their ids. -/
theorem beq_eq (h : c.AltersTo c') (h' : d.AltersTo d') : (c == d) = (c' == d') := by
  show (c.id == d.id) = (c'.id == d'.id)
  rw [h.id_eq, h'.id_eq]

theorem binds_eq (h : c.AltersTo c') : c.binds = c'.binds := by
  cases h with
  | step id h => exact h.binds_eq
  | group id h => exact h.binds_eq

end Condition.AltersTo

/-- The same nodes with altered conditions. -/
abbrev Log.AltersTo (log log' : Log) : Prop := Chain.Alike Condition.AltersTo log log'

/-- Builds that draw the same and give results that correspond. -/
abbrev Build.Twin {α β : Type} (R : α → β → Prop) (m : Build α) (m' : Build β) : Prop :=
  MatchAlgebra.Twin (· = ·) R m m'

namespace Build.Twin

variable {α β : Type} {R : α → β → Prop} {m : Build α} {m' : Build β}

theorem check {r : Except PlanError α} {r' : Except PlanError β} (h : SameOutcome R r r') :
    Twin R (check r) (MatchAlgebra.check r') := .ofExcept h

theorem modifyGet {draw : Supply → α × Supply} {draw' : Supply → β × Supply}
    (h : ∀ s, R (draw s).1 (draw' s).1 ∧ (draw s).2 = (draw' s).2) :
    Twin R (modifyGet draw) (MonadStateOf.modifyGet draw') := by
  rintro s _ rfl
  exact ⟨.ok (h s).1, (h s).2⟩

/-- What the one makes the other makes too. -/
theorem yields (h : Twin R m m') {s s' : Supply} {a : α} (makes : m.Yields s a s') :
    ∃ b, m'.Yields s b s' ∧ R a b := by
  obtain ⟨outcome, supplies⟩ := h s s rfl
  rw [show m.run.run s = _ from makes] at outcome supplies
  generalize hout : m'.run.run s = out at outcome supplies
  obtain ⟨r, s''⟩ := out
  cases outcome with
  | ok hab =>
    cases supplies
    exact ⟨_, hout, hab⟩

end Build.Twin

section
variable {log log' : Log} {c c' : Condition} {s s' : Step}

theorem Log.append_twin (h : log.AltersTo log') (hc : c.AltersTo c') :
    Build.Twin Log.AltersTo (Log.append log c) (Log.append log' c') :=
  .modifyGet fun _ => ⟨h.append _ hc, rfl⟩

theorem newStep_twin (h : s.AltersTo s') :
    Build.Twin Condition.AltersTo (newStep s) (newStep s') := by
  refine Twin.bind (.refl drawId) ?_
  rintro id _ rfl -
  exact .pure (.step id h)

theorem Log.appendSteps_twin {steps steps' : List Step}
    (h : List.Forall₂ Step.AltersTo steps steps') (hlog : log.AltersTo log') :
    Build.Twin Log.AltersTo (Log.appendSteps log steps) (Log.appendSteps log' steps') := by
  induction h generalizing log log' with
  | nil => exact .pure hlog
  | cons hstep _ ih =>
    refine (newStep_twin hstep).bind fun c c' hc _ => ?_
    exact (Log.append_twin hlog hc).bind fun _ _ hgrown _ => ih hgrown

theorem Log.union_twin {logs logs' : List Log} (h : List.Forall₂ Log.AltersTo logs logs') :
    Build.Twin Log.AltersTo (Log.union logs) (Log.union logs') := by
  refine .modifyGet fun s => ?_
  obtain ⟨union, next⟩ := Chain.Alike.union
    (fun _ _ _ _ h h' => Condition.AltersTo.beq_eq h h') h s.nextNode
  exact ⟨union, by dsimp only; rw [next]⟩

end

/-! ## Expressions -/

structure Slot.AltersTo (slot slot' : Slot) : Prop where
  bound : slot.bound = slot'.bound
  log : slot.log.AltersTo slot'.log

structure Context.AltersTo (context context' : Context) : Prop where
  visible : context.visible = context'.visible
  conditions : context.conditions.AltersTo context'.conditions

/-- The same slots, with logs of altered conditions, and a context that is in step with them. -/
structure Expression.AltersTo (e e' : Expression) : Prop where
  front : List.Forall₂ Slot.AltersTo e.front e'.front
  last : e.last.AltersTo e'.last
  context : e.context.AltersTo e'.context
  inStep : e.InStep

namespace Expression

variable {e e' l l' o o' : Expression}

namespace AltersTo

theorem slots (h : e.AltersTo e') : List.Forall₂ Slot.AltersTo e.slots e'.slots :=
  List.rel_append h.front (.cons h.last .nil)

theorem log (h : e.AltersTo e') : e.log.AltersTo e'.log := h.context.conditions

theorem logs (h : e.AltersTo e') :
    List.Forall₂ Log.AltersTo (e.slots.map (·.log)) (e'.slots.map (·.log)) :=
  List.rel_map (fun _ _ hs => hs.log) h.slots

theorem visible_eq (h : e.AltersTo e') : e.visible = e'.visible := h.context.visible

theorem degree_eq (h : e.AltersTo e') : e.degree = e'.degree := h.slots.length_eq

theorem ofSlot {slot slot' : Slot} (h : slot.AltersTo slot') :
    (Expression.ofSlot slot).AltersTo (Expression.ofSlot slot') :=
  ⟨.nil, h, ⟨congrArg ([·]) h.bound, h.log⟩, inStep_ofSlot slot⟩

end AltersTo

theorem ofSlots_outcome {slots slots' : List Slot}
    (h : List.Forall₂ Slot.AltersTo slots slots') :
    SameOutcome AltersTo (ofSlots slots) (ofSlots slots') := by
  have front : List.Forall₂ Slot.AltersTo slots.dropLast slots'.dropLast := by
    rw [List.dropLast_eq_take, List.dropLast_eq_take, h.length_eq]
    exact List.forall₂_take _ h
  have last : Option.Rel Slot.AltersTo slots.getLast? slots'.getLast? := by
    have reversed := List.forall₂_reverse_iff.2 h
    rw [← List.head?_reverse, ← List.head?_reverse]
    generalize slots.reverse = rs at reversed
    generalize slots'.reverse = rs' at reversed
    cases reversed with
    | nil => exact .none
    | cons hlast _ => exact .some hlast
  rw [ofSlots, ofSlots, h.length_eq]
  generalize hslots : slots.getLast? = l at last
  generalize slots'.getLast? = l' at last
  cases last with
  | none => exact .error _
  | some hlast =>
    dsimp only
    split
    · have bounds : slots.map (·.bound) = slots'.map (·.bound) :=
        map_eq_map_iff.2 (h.imp fun _ _ => (·.bound))
      exact .ok ⟨front, hlast, ⟨bounds, hlast.log⟩, inStep_of_getLast? hslots⟩
    · exact .error _

theorem forEach_twin (factory : Factory) (type : FactType) :
    Build.Twin AltersTo (forEach factory type) (forEach factory type) := by
  refine Twin.bind (.refl _) ?_
  rintro bound _ rfl -
  refine (Log.appendSteps_twin (.cons (.pattern bound type) .nil) .empty).bind ?_
  exact fun log log' hlog _ => .pure (.ofSlot ⟨rfl, hlog⟩)

theorem require_twin (h : e.AltersTo e') {s s' : Step} (hs : s.AltersTo s') :
    Build.Twin AltersTo (e.require s) (e'.require s') := by
  refine (Log.appendSteps_twin (.cons hs .nil) h.last.log).bind ?_
  exact fun log log' hlog _ =>
    .pure ⟨h.front, ⟨h.last.bound, hlog⟩, ⟨h.visible_eq, hlog⟩, h.inStep.relog log⟩

theorem filter_twin (h : e.AltersTo e') {p p' : TuplePredicate} (agree : AgreeAt e.degree p p') :
    Build.Twin AltersTo (e.filter p) (e'.filter p') := by
  rw [filter, filter, ← h.visible_eq]
  rw [← h.inStep.length_visible] at agree
  exact require_twin h (.filter agree)

theorem map_twin (h : e.AltersTo e') (factory : Factory) {f f' : TupleFunction}
    (agree : AgreeAt e.degree f f') :
    Build.Twin AltersTo (e.map factory f) (e'.map factory f') := by
  rw [map, map, ← h.visible_eq]
  rw [← h.inStep.length_visible] at agree
  refine Twin.bind (.refl _) ?_
  rintro bound _ rfl -
  refine (Log.union_twin h.logs).bind fun combined combined' hcombined _ => ?_
  refine (Log.appendSteps_twin (.cons (.bind agree) .nil) hcombined).bind ?_
  exact fun log log' hlog _ => .pure (.ofSlot ⟨rfl, hlog⟩)

end Expression

/-! ### Joins and existence checks -/

/-- The same joiner, with functions of the left values that agree on lists of the length. -/
inductive Joiner.AltersTo (n : Nat) : Joiner → Joiner → Prop
  | comparing (comparison : Comparison) {left left' : TupleFunction} (right : FactFunction)
      (agree : AgreeAt n left left') :
      AltersTo n (.comparing comparison ⟨left, right⟩) (.comparing comparison ⟨left', right⟩)
  | matchAll : AltersTo n .matchAll .matchAll
  | filtering {p p' : JoinPredicate} (agree : AgreeAt n p p') :
      AltersTo n (.filtering p) (.filtering p')

namespace JoinRule.AltersTo

variable {n : Nat} {rule rule' : JoinRule}

theorem comparisons (h : rule.AltersTo n rule') :
    List.Forall₂ (KeyComparison.AltersTo n) rule.comparisons rule'.comparisons := by
  obtain ⟨indexed, filter⟩ := rule
  obtain ⟨indexed', filter'⟩ := rule'
  obtain ⟨hindexed, -⟩ := h
  cases hindexed with
  | none => exact .nil
  | some h => exact h

theorem predicates (h : rule.AltersTo n rule') :
    List.Forall₂ (AgreeAt n) rule.predicates rule'.predicates := by
  obtain ⟨indexed, filter⟩ := rule
  obtain ⟨indexed', filter'⟩ := rule'
  obtain ⟨-, hfilter⟩ := h
  cases hfilter with
  | none => exact .nil
  | some h => exact h

theorem isSome_filter (h : rule.AltersTo n rule') : rule.filter.isSome = rule'.filter.isSome := by
  obtain ⟨indexed, filter⟩ := rule
  obtain ⟨indexed', filter'⟩ := rule'
  obtain ⟨-, hfilter⟩ := h
  cases hfilter <;> rfl

end JoinRule.AltersTo

namespace Joiner

variable {n : Nat} {joiners joiners' : List Joiner}

theorem kinds_eq (h : List.Forall₂ (AltersTo n) joiners joiners') :
    joiners.map kind = joiners'.map kind := by
  refine map_eq_map_iff.2 (h.imp fun _ _ hj => ?_)
  cases hj <;> rfl

theorem findIdx_isFiltering (h : List.Forall₂ (AltersTo n) joiners joiners') :
    joiners.findIdx isFiltering = joiners'.findIdx isFiltering := by
  induction h with
  | nil => rfl
  | cons hj _ ih =>
    rw [List.findIdx_cons, List.findIdx_cons, ih]
    cases hj <;> rfl

theorem mergeFrom_outcome {all all' : List Joiner} (hall : List.Forall₂ (AltersTo n) all all')
    (h : List.Forall₂ (AltersTo n) joiners joiners') (position : Nat) {rule rule' : JoinRule}
    (hr : rule.AltersTo n rule') : SameOutcome (JoinRule.AltersTo n)
      (mergeFrom all position joiners rule) (mergeFrom all' position joiners' rule') := by
  induction h generalizing position rule rule' with
  | nil => exact .ok hr
  | cons hj _ ih =>
    cases hj with
    | comparing comparison right agree =>
      rw [mergeFrom, mergeFrom, hr.isSome_filter, findIdx_isFiltering hall, kinds_eq hall]
      split
      · exact .error _
      · refine ih _ ⟨.some ?_, hr.filter⟩
        exact List.rel_append hr.comparisons (.cons ⟨rfl, agree, rfl⟩ .nil)
    | matchAll =>
      rw [mergeFrom, mergeFrom, hall.length_eq, kinds_eq hall]
      split
      · exact .error _
      · exact ih _ ⟨.some hr.comparisons, hr.filter⟩
    | filtering agree =>
      rw [mergeFrom, mergeFrom]
      exact ih _ ⟨hr.indexed, .some (List.rel_append hr.predicates (.cons agree .nil))⟩

theorem merge_outcome (h : List.Forall₂ (AltersTo n) joiners joiners') :
    SameOutcome (JoinRule.AltersTo n) (merge joiners) (merge joiners') :=
  mergeFrom_outcome h h 0 ⟨.none, .none⟩

end Joiner

namespace Expression

variable {e e' l l' o o' : Expression}

theorem checkExistence_twin (h : e.AltersTo e') (factory : Factory) (quantifier : Quantifier)
    (type : FactType) {joiners joiners' : List Joiner}
    (agree : List.Forall₂ (Joiner.AltersTo e.degree) joiners joiners') :
    Build.Twin AltersTo (e.checkExistence factory quantifier type joiners)
      (e'.checkExistence factory quantifier type joiners') := by
  rw [checkExistence, checkExistence, ← h.visible_eq]
  rw [← h.inStep.length_visible] at agree
  refine (Build.Twin.check (Joiner.merge_outcome agree)).bind fun rule rule' hrule _ => ?_
  refine Twin.bind (.refl _) ?_
  rintro candidate _ rfl -
  exact require_twin h (.existence hrule)

theorem sharedVariable?_eq (hl : l.AltersTo l') (ho : o.AltersTo o') :
    l.sharedVariable? o = l'.sharedVariable? o' := by
  have binds : ∀ {log log' : Log}, log.AltersTo log' →
      log.newestFirst.flatMap Condition.binds = log'.newestFirst.flatMap Condition.binds :=
    fun h => flatMap_eq_of_forall₂ (h.newestFirst.imp fun _ _ => Condition.AltersTo.binds_eq)
  rw [sharedVariable?, sharedVariable?, hl.visible_eq, binds hl.last.log, binds ho.last.log,
    ho.last.bound]

theorem joinable_outcome (hl : l.AltersTo l') (ho : o.AltersTo o') {joiners joiners' : List Joiner}
    (agree : List.Forall₂ (Joiner.AltersTo l.degree) joiners joiners') :
    SameOutcome (JoinRule.AltersTo l.degree) (l.joinable o joiners) (l'.joinable o' joiners') := by
  rw [joinable, joinable, ← hl.degree_eq, ← ho.degree_eq, ← sharedVariable?_eq hl ho]
  split
  · exact .error _
  · split
    · exact .error _
    · split
      · exact .error _
      · exact Joiner.merge_outcome agree

theorem joinSteps_altersTo {inputs : List Variable} (target : Variable) {rule rule' : JoinRule}
    (h : rule.AltersTo inputs.length rule') :
    List.Forall₂ Step.AltersTo (joinSteps inputs target rule) (joinSteps inputs target rule') := by
  have tests : ∀ n, List.Forall₂ Step.AltersTo
      ((rule.comparisons.zipIdx n).map fun p => .join ⟨inputs, target, p.2, p.1⟩)
      ((rule'.comparisons.zipIdx n).map fun p => .join ⟨inputs, target, p.2, p.1⟩) := by
    have comparisons := h.comparisons
    generalize rule.comparisons = cs at comparisons
    generalize rule'.comparisons = cs' at comparisons
    induction comparisons with
    | nil => exact fun n => .nil
    | cons hc _ ih => exact fun n => .cons (.join hc) (ih (n + 1))
  refine List.rel_append (tests 0) ?_
  have hfilter := h.filter
  generalize rule.filter = filter at hfilter
  generalize rule'.filter = filter' at hfilter
  cases hfilter with
  | none => exact .nil
  | some hfilter =>
    refine .cons (.filter ?_) .nil
    rw [List.length_append]
    exact JoinPredicates.agree_overPair hfilter

theorem join_twin (hl : l.AltersTo l') (ho : o.AltersTo o') {joiners joiners' : List Joiner}
    (agree : List.Forall₂ (Joiner.AltersTo l.degree) joiners joiners') :
    Build.Twin AltersTo (l.join o joiners) (l'.join o' joiners') := by
  rw [join, join, ← hl.visible_eq, ← ho.last.bound]
  refine (Build.Twin.check (joinable_outcome hl ho agree)).bind fun rule rule' hrule _ => ?_
  have logs := Log.union_twin (.cons hl.last.log (.cons ho.last.log .nil))
  refine logs.bind fun both both' hboth _ => ?_
  rw [← hl.inStep.length_visible] at hrule
  refine (Log.appendSteps_twin (joinSteps_altersTo _ hrule) hboth).bind fun log log' hlog _ => ?_
  exact Build.Twin.check (ofSlots_outcome (List.rel_append hl.slots (.cons ⟨rfl, hlog⟩ .nil)))

end Expression

/-! ### Groupings -/

/-- As many keys and collectors, with functions that agree on lists of the length. -/
structure GroupRequest.AltersTo (n : Nat) (request request' : GroupRequest) : Prop where
  keys : List.Forall₂ (AgreeAt n) request.keys request'.keys
  collectors : List.Forall₂ (Collector.AltersTo (·.length = n)) request.collectors
    request'.collectors

theorem GroupRequest.AltersTo.validate_eq {n : Nat} {request request' : GroupRequest}
    (h : request.AltersTo n request') : request.validate = request'.validate := by
  rw [validate, validate, degree, degree, h.keys.length_eq, h.collectors.length_eq]

theorem agree_keyTuple {n : Nat} {keys keys' : List TupleFunction}
    (h : List.Forall₂ (AgreeAt n) keys keys') : AgreeAt n (keyTuple keys) (keyTuple keys') := by
  intro xs length
  exact congrArg Value.tuple (map_eq_map_iff.2 (h.imp fun _ _ agree => agree xs length))

/-- A log with one step more. -/
theorem Log.oldestFirst_of_appendSteps {log log' : Log} {step : Step}
    (gives : Gives (Log.appendSteps log [step]) log') :
    ∃ id, log'.oldestFirst = log.oldestFirst ++ [.step id step] := by
  obtain ⟨s, s', h⟩ := gives
  obtain ⟨cs, conditions, does⟩ := Log.appendSteps_yields h
  obtain ⟨c, ⟨id, rfl⟩, rfl⟩ := Condition.Does.of_singleton does
  exact ⟨id, conditions⟩

namespace Expression

variable {e e' : Expression} {n : Nat}

/-- The input ends by binding the tuple of all inputs to the source. -/
def FedBy (inputs : List Variable) (source : Option Variable) (input : List Condition) : Prop :=
  ∃ s ∈ source, ∃ before id, input = before ++ [.step id (.bind s inputs wholeTuple)]

theorem sourceLog_twin (factory : Factory) {collectors collectors' : List Collector}
    (length : collectors.length = collectors'.length) (inputs : List Variable) {log log' : Log}
    (h : log.AltersTo log') :
    Build.Twin (fun p p' : Option Variable × Log => p.1 = p'.1 ∧ p.2.AltersTo p'.2 ∧
        (collectors ≠ [] → FedBy inputs p.1 p.2.oldestFirst))
      (sourceLog factory collectors inputs log) (sourceLog factory collectors' inputs log') := by
  cases collectors with
  | nil =>
    cases List.length_eq_zero_iff.1 length.symm
    exact .pure ⟨rfl, h, fun hne => absurd rfl hne⟩
  | cons collector collectors =>
    obtain ⟨collector', others, rfl⟩ := List.exists_cons_of_length_eq_add_one length.symm
    refine Twin.bind (R := fun p p' : Variable × Log => p.1 = p'.1 ∧ p.2.AltersTo p'.2 ∧
      FedBy inputs (some p.1) p.2.oldestFirst) ?_ ?_
    · refine Twin.bind (.refl _) ?_
      rintro source _ rfl -
      refine (Log.appendSteps_twin (.cons (.refl _) .nil) h).bind ?_
      intro grown grown' hgrown gives
      obtain ⟨id, conditions⟩ := Log.oldestFirst_of_appendSteps gives
      exact .pure ⟨rfl, hgrown, source, rfl, _, id, conditions⟩
    · rintro ⟨source, input⟩ ⟨_, input'⟩ ⟨rfl, hinput, fed⟩ -
      exact .pure ⟨rfl, hinput, fun _ => fed⟩

theorem groupKey_twin (factory : Factory) {keys keys' : List TupleFunction}
    (h : List.Forall₂ (AgreeAt n) keys keys') :
    Build.Twin (Option.Rel (GroupKey.AltersTo n)) (groupKey factory keys)
      (groupKey factory keys') := by
  cases h with
  | nil => exact .pure .none
  | cons hfirst hrest =>
    cases hrest with
    | nil =>
      refine Twin.bind (.refl _) ?_
      rintro bound _ rfl -
      exact .pure (.some ⟨rfl, hfirst⟩)
    | cons hsecond hothers =>
      have all := List.Forall₂.cons hfirst (.cons hsecond hothers)
      have length := all.length_eq
      unfold groupKey
      dsimp only
      rw [length]
      refine Twin.bind (.refl _) ?_
      rintro bound _ rfl -
      exact .pure (.some ⟨rfl, agree_keyTuple all⟩)

theorem collectorOutputs_twin (factory : Factory) {fed : List Value → Prop}
    {collectors collectors' : List Collector}
    (h : List.Forall₂ (Collector.AltersTo fed) collectors collectors') :
    Build.Twin (fun outputs outputs' =>
        List.Forall₂ (CollectorOutput.AltersTo fed) outputs outputs' ∧
          outputs.length = collectors.length)
      (collectorOutputs factory collectors) (collectorOutputs factory collectors') := by
  unfold collectorOutputs
  induction h with
  | nil => exact .pure ⟨.nil, rfl⟩
  | cons hc _ ih =>
    rw [List.mapM_cons, List.mapM_cons]
    refine Twin.bind (R := CollectorOutput.AltersTo fed) ?_ fun output output' houtput _ => ?_
    · refine Twin.bind (.refl _) ?_
      rintro bound _ rfl -
      exact .pure ⟨rfl, hc⟩
    · exact Twin.bind ih fun outputs outputs' houtputs _ =>
        .pure ⟨.cons houtput houtputs.1, congrArg (· + 1) houtputs.2⟩

/-- Collectors that agree on lists of the length agree on what they are fed with. -/
theorem altersTo_of_fedBy {source : Option Variable} {key : Option GroupKey}
    {input : List Condition} {outputs outputs' : List CollectorOutput}
    (h : List.Forall₂ (CollectorOutput.AltersTo (·.length = e.degree)) outputs outputs')
    (fed : outputs ≠ [] → FedBy e.visible source input) (inStep : e.InStep) :
    List.Forall₂ (CollectorOutput.AltersTo
      (Grouping.MayFeed ⟨e.visible, source, key, outputs⟩ input)) outputs outputs' := by
  have lengths : outputs ≠ [] → ∀ xs,
      Grouping.MayFeed ⟨e.visible, source, key, outputs⟩ input xs → xs.length = e.degree := by
    intro hne xs hxs
    obtain ⟨s, hs, before, id, heq⟩ := fed hne
    exact (hxs s hs before id heq).trans inStep.length_visible
  generalize Grouping.MayFeed ⟨e.visible, source, key, outputs⟩ input = may at lengths
  cases h with
  | nil => exact .nil
  | cons hfirst hrest =>
    have fewer := lengths (List.cons_ne_nil _ _)
    refine (List.Forall₂.cons hfirst hrest).imp fun _ _ ho => ⟨ho.bound, ho.collector.measure, ?_⟩
    exact fun xs hxs => ho.collector.mapping xs (fewer xs hxs)

theorem componentSlots_twin {log log' : Log} (h : log.AltersTo log')
    (pairs : List (Variable × Condition)) :
    Build.Twin (fun p p' : Log × List Slot => p.1.AltersTo p'.1 ∧
        List.Forall₂ Slot.AltersTo p.2 p'.2)
      (componentSlots log pairs) (componentSlots log' pairs) := by
  induction pairs generalizing log log' with
  | nil => exact .pure ⟨h, .nil⟩
  | cons pair pairs ih =>
    obtain ⟨bound, c⟩ := pair
    refine (Log.append_twin h (.refl c)).bind fun grown grown' hgrown _ => ?_
    refine Twin.bind (ih hgrown) ?_
    rintro ⟨full, slots⟩ ⟨full', slots'⟩ ⟨hfull, hslots⟩ -
    exact .pure ⟨hfull, .cons ⟨rfl, hgrown⟩ hslots⟩

theorem keySlots_twin (factory : Factory) {log log' : Log} (h : log.AltersTo log')
    {key key' : Option GroupKey} (hkey : Option.Rel (GroupKey.AltersTo n) key key') (count : Nat) :
    Build.Twin (fun p p' : Log × List Slot => p.1.AltersTo p'.1 ∧
        List.Forall₂ Slot.AltersTo p.2 p'.2)
      (keySlots factory log key count) (keySlots factory log' key' count) := by
  cases hkey with
  | none => exact .pure ⟨h, .nil⟩
  | some hk =>
    rw [keySlots, keySlots, hk.bound]
    split
    · exact .pure ⟨h, .cons ⟨rfl, h⟩ .nil⟩
    · refine Twin.bind (.refl _) ?_
      rintro pairs _ rfl -
      exact componentSlots_twin h pairs

theorem groupBy_twin (h : e.AltersTo e') (factory : Factory) {request request' : GroupRequest}
    (hr : request.AltersTo e.degree request') :
    Build.Twin AltersTo (e.groupBy factory request) (e'.groupBy factory request') := by
  rw [groupBy_eq, groupBy_eq, ← h.visible_eq, ← hr.validate_eq, ← hr.keys.length_eq]
  refine Twin.bind (.refl _) ?_
  rintro _ _ - -
  refine (Log.union_twin h.logs).bind fun combined combined' hcombined _ => ?_
  refine (sourceLog_twin factory hr.collectors.length_eq e.visible hcombined).bind ?_
  rintro ⟨source, input⟩ ⟨_, input'⟩ ⟨rfl, hinput, fed⟩ -
  refine (groupKey_twin factory hr.keys).bind fun key key' hkey _ => ?_
  refine (collectorOutputs_twin factory hr.collectors).bind ?_
  rintro outputs outputs' ⟨houtputs, length⟩ -
  refine Twin.bind (R := Condition.AltersTo) ?_ fun group group' hgroup _ => ?_
  · refine Twin.bind (.refl _) ?_
    rintro id _ rfl -
    refine .pure (.group id ⟨rfl, rfl, ?_, ?_⟩ hinput.oldestFirst)
    · rwa [h.inStep.length_visible]
    · have no_outputs : request.collectors = [] → outputs = [] := fun hnil =>
        List.length_eq_zero_iff.1 (length.trans (congrArg List.length hnil))
      exact altersTo_of_fedBy houtputs (fun hne => fed (mt no_outputs hne)) h.inStep
  refine (Log.append_twin .empty hgroup).bind fun log log' hlog _ => ?_
  refine (keySlots_twin factory hlog hkey _).bind ?_
  rintro ⟨full, slots⟩ ⟨full', slots'⟩ ⟨hfull, hslots⟩ -
  refine Build.Twin.check (ofSlots_outcome (List.rel_append hslots ?_))
  exact List.rel_map (fun _ _ ho => ⟨ho.bound, hfull⟩) houtputs

end Expression

/-! ## Rebuilding -/

/-- An operation of the algebra on what has been built twice, the second time with functions that
agree with those of the first on as many values as the operand has. -/
inductive Reworks (ps : List ((Term × Expression) × (Term × Expression))) :
    Term × Build Expression → Term × Build Expression → Prop
  | forEach (factory : Factory) (type : FactType) :
      Reworks ps (.forEach type, Expression.forEach factory type)
        (.forEach type, Expression.forEach factory type)
  | filter {t t' : Term} {e e' : Expression} {p p' : TuplePredicate}
      (operand : ((t, e), (t', e')) ∈ ps) (agree : AgreeAt e.degree p p') :
      Reworks ps (.filter t p, e.filter p) (.filter t' p', e'.filter p')
  | join {left left' right right' : Term} {l l' o o' : Expression} {joiners joiners' : List Joiner}
      (left_operand : ((left, l), (left', l')) ∈ ps)
      (right_operand : ((right, o), (right', o')) ∈ ps)
      (agree : List.Forall₂ (Joiner.AltersTo l.degree) joiners joiners') :
      Reworks ps (.join left right joiners, l.join o joiners)
        (.join left' right' joiners', l'.join o' joiners')
  | existence {t t' : Term} {e e' : Expression} {joiners joiners' : List Joiner}
      (factory : Factory) (quantifier : Quantifier) (type : FactType)
      (operand : ((t, e), (t', e')) ∈ ps)
      (agree : List.Forall₂ (Joiner.AltersTo e.degree) joiners joiners') :
      Reworks ps
        (.existence t quantifier type joiners, e.checkExistence factory quantifier type joiners)
        (.existence t' quantifier type joiners',
          e'.checkExistence factory quantifier type joiners')
  | map {t t' : Term} {e e' : Expression} {f f' : TupleFunction} (factory : Factory)
      (operand : ((t, e), (t', e')) ∈ ps) (agree : AgreeAt e.degree f f') :
      Reworks ps (.map t f, e.map factory f) (.map t' f', e'.map factory f')
  | groupBy {t t' : Term} {e e' : Expression} {request request' : GroupRequest} (factory : Factory)
      (operand : ((t, e), (t', e')) ∈ ps) (agree : request.AltersTo e.degree request') :
      Reworks ps (.groupBy t request, e.groupBy factory request)
        (.groupBy t' request', e'.groupBy factory request')

/-- What has been built when a supply is reached, and what has been built from the same supply with
altered functions. -/
inductive Rebuilt : Supply → List ((Term × Expression) × (Term × Expression)) → Prop
  | start (s : Supply) : Rebuilt s []
  | other {s s' : Supply} {ps : List ((Term × Expression) × (Term × Expression))}
      (h : Rebuilt s ps) (later : s.Before s') : Rebuilt s' ps
  | operation {s s' : Supply} {ps : List ((Term × Expression) × (Term × Expression))}
      {t t' : Term} {m m' : Build Expression} {e e' : Expression} (h : Rebuilt s ps)
      (reworks : Reworks ps (t, m) (t', m')) (makes : m.Yields s e s')
      (remakes : m'.Yields s e' s') : Rebuilt s' (((t, e), (t', e')) :: ps)

namespace Rebuilt

variable {s s' : Supply} {ps : List ((Term × Expression) × (Term × Expression))} {t t' : Term}
  {m m' : Build Expression} {e e' : Expression}

/-- An operation on altered expressions draws the same and makes altered expressions. -/
theorem twin_of_reworks (alters : ∀ p ∈ ps, p.1.2.AltersTo p.2.2)
    (h : Reworks ps (t, m) (t', m')) : m.Twin Expression.AltersTo m' := by
  cases h with
  | forEach factory type => exact Expression.forEach_twin factory type
  | filter operand agree => exact Expression.filter_twin (alters _ operand) agree
  | join left_operand right_operand agree =>
    exact Expression.join_twin (alters _ left_operand) (alters _ right_operand) agree
  | existence factory quantifier type operand agree =>
    exact Expression.checkExistence_twin (alters _ operand) factory quantifier type agree
  | map factory operand agree => exact Expression.map_twin (alters _ operand) factory agree
  | groupBy factory operand agree => exact Expression.groupBy_twin (alters _ operand) factory agree

/-- Whatever is built twice differs in altered functions only. -/
theorem alters (h : Rebuilt s ps) : ∀ p ∈ ps, p.1.2.AltersTo p.2.2 := by
  induction h with
  | start s => exact fun p hp => absurd hp List.not_mem_nil
  | other _ _ ih => exact ih
  | operation _ reworks makes remakes ih =>
    obtain ⟨again, hagain, alters⟩ := (twin_of_reworks ih reworks).yields makes
    cases remakes.symm.trans hagain
    exact List.forall_mem_cons.2 ⟨alters, ih⟩

/-- Where an operation succeeds it succeeds with altered functions too. -/
theorem exists_operation (h : Rebuilt s ps) (reworks : Reworks ps (t, m) (t', m'))
    (makes : m.Yields s e s') :
    ∃ e', m'.Yields s e' s' ∧ Rebuilt s' (((t, e), (t', e')) :: ps) := by
  obtain ⟨e', remakes, -⟩ := (twin_of_reworks h.alters reworks).yields makes
  exact ⟨e', remakes, .operation h reworks makes remakes⟩

/-- **Altered functions are compiled into altered plans.** -/
theorem toPlan (h : Rebuilt s ps) (operand : ((t, e), (t', e')) ∈ ps) {weigher weigher' : Weigher}
    (agree : weigher.AltersTo e.degree weigher') :
    (e.toPlan weigher).AltersTo (e'.toPlan weigher') := by
  have alters := h.alters _ operand
  refine ⟨alters.log.oldestFirst, alters.visible_eq, ?_⟩
  show weigher.AltersTo e.visible.length weigher'
  rwa [alters.inStep.length_visible]

end Rebuilt

end MatchAlgebra
