import Mathlib.Data.List.ProdSigma
import MatchAlgebra.Proofs.Coherence
import MatchAlgebra.Proofs.Handles
import MatchAlgebra.Proofs.Joins

/-!
# Joins with their sides swapped

The sides of a join bind no variable in common, so neither sees the rows of the other.  The rows of
a join are pairs of rows of its sides, and its matches are pairs of matches (`derive_pairs`):

    matches of l                 ms
    matches of r                 ns
    matches of l.join r js       the pairs of ms and ns on which all of js hold, left-major

Joiners can be turned round to look at the same pair from the other side (`Joiner.swap`).  With the
sides swapped and the joiners turned round a join is accepted just as before, and what it finds are
the same pairs in another order:

    matches of r.join l (js.map swap)   a permutation of them, with the values swapped
                                                                             (join_mirrored)
-/

namespace MatchAlgebra

/-! ## Joiners turned round -/

/-- The keys change sides, for a left side of one value. -/
def KeyPair.swap (keys : KeyPair) : KeyPair where
  left tuple := keys.right (valueAt 0 tuple)
  right x := keys.left [x]

namespace Joiner

/-- What the joiner says of a pair, said from the other side. -/
def swap : Joiner → Joiner
  | .comparing comparison keys => .comparing comparison.flip keys.swap
  | .matchAll => .matchAll
  | .filtering predicate => .filtering fun tuple x => predicate [x] (valueAt 0 tuple)

variable {joiners : List Joiner} {i : Nat}

theorem holds_swap (joiner : Joiner) (x y : Value) :
    joiner.swap.holds [y] x = joiner.holds [x] y := by
  cases joiner with
  | comparing comparison keys => exact comparison.holds_flip (keys.left [x]) (keys.right y)
  | matchAll => rfl
  | filtering predicate => rfl

theorem all_holds_swap (joiners : List Joiner) (x y : Value) :
    (joiners.map swap).all (·.holds [y] x) = joiners.all (·.holds [x] y) := by
  rw [List.all_map]
  congr 1
  funext joiner
  exact joiner.holds_swap x y

/-- A joiner that is turned round is as much in its place as it was. -/
theorem breaks_map_swap : Breaks (joiners.map swap) i ↔ Breaks joiners i := by
  constructor
  · intro breaks
    cases breaks with
    | beside here several =>
      rw [List.getElem?_map, Option.map_eq_some_iff] at here
      obtain ⟨joiner, here, swapped⟩ := here
      cases joiner with
      | comparing | filtering => cases swapped
      | matchAll => exact .beside here (List.length_map swap ▸ several)
    | late here before filter =>
      rw [List.getElem?_map, Option.map_eq_some_iff] at here filter
      obtain ⟨joiner, here, swapped⟩ := here
      obtain ⟨other, filter, swapped'⟩ := filter
      cases joiner with
      | matchAll | filtering => cases swapped
      | comparing =>
        cases other with
        | comparing | matchAll => cases swapped'
        | filtering => exact .late here before filter
  · intro breaks
    cases breaks with
    | beside here several =>
      exact .beside (by rw [List.getElem?_map, here]; rfl) (by rwa [List.length_map])
    | late here before filter =>
      exact .late (by rw [List.getElem?_map, here]; rfl) before
        (by rw [List.getElem?_map, filter]; rfl)

theorem merges_map_swap :
    (∃ rule, merge (joiners.map swap) = .ok rule) ↔ ∃ rule, merge joiners = .ok rule := by
  rw [merges_iff, merges_iff, inOrder_iff, inOrder_iff]
  exact forall_congr' fun i => not_congr breaks_map_swap

end Joiner

namespace Registry

variable {r : Registry} {t t' : Term} {left right : Expression}

/-- What both sides show is bound in their logs, so it does not matter which side is asked. -/
theorem Shapes.apart_symm (h : r.Shapes t right) (apart : left.Apart right) :
    right.Apart left := by
  intro v hv w hw same
  have bound : w ∈ right.log.oldestFirst.flatMap Condition.binds := by
    rcases List.mem_append.1 hw with hw | hw
    · exact h.layout.visible_bound w hw
    · exact hw
  exact apart w bound v (List.mem_append_right _ hv) same.symm

/-- Two single values can be joined either way round or not at all. -/
theorem Shapes.joinable_swap (hl : r.Shapes t left) (hr : r.Shapes t' right)
    (single : left.degree = 1) (single' : right.degree = 1) (joiners : List Joiner) :
    (∃ rule, left.joinable right joiners = .ok rule) ↔
      ∃ rule, right.joinable left (joiners.map Joiner.swap) = .ok rule := by
  have apart : left.Apart right ↔ right.Apart left :=
    ⟨hr.apart_symm, hl.apart_symm⟩
  rw [Expression.joinable_iff hl.inStep hr, Expression.joinable_iff hr.inStep hl, single, single',
    apart, Joiner.merges_map_swap]

end Registry

/-! ## The matches of a join are pairs -/

/-- A match of both sides. -/
def Match.beside (w : Weigher) (m n : Match) : Match where
  values := m.values ++ n.values
  weight := w.weigh (m.values ++ n.values)
  facts := HandleSet.ascending (m.facts ++ n.facts)

/-- All joiners hold of a match of the left side and the value of one of the right side. -/
def Match.fit (joiners : List Joiner) (p : Match × Match) : Bool :=
  joiners.all (·.holds p.1.values (valueAt 0 p.2.values))

/-- The row was made of rows of the two matches. -/
structure Row.Pairs (vs : List Variable) (target : Variable) (row : Row) (p : Match × Match) :
    Prop where
  left : row.read vs = .ok p.1.values
  right : row.read [target] = .ok p.2.values
  facts : HandleSet.ascending row.facts = HandleSet.ascending (p.1.facts ++ p.2.facts)

/-- The parts of a row that a join looks at. -/
def Row.sides (vs : List Variable) (target : Variable) (row : Row) : List Value × Value :=
  ((row.read vs).toOption.getD [], (row.get target).toOption.getD .null)

section
variable {vs : List Variable} {target : Variable} {row : Row} {p : Match × Match}

theorem Row.Pairs.get (h : row.Pairs vs target p) :
    row.get target = .ok (valueAt 0 p.2.values) :=
  (Row.ReadsPair.get (z := (p.1.values, p.2.values)) ⟨h.left, h.right⟩).1

theorem Row.values_of_read_singleton {xs : List Value} (h : row.read [target] = .ok xs) :
    xs = [valueAt 0 xs] := by
  obtain ⟨x, -, h⟩ := bind_eq_ok.1 h
  cases h
  rfl

theorem Row.Pairs.sides (h : row.Pairs vs target p) :
    row.sides vs target = (p.1.values, valueAt 0 p.2.values) := by
  rw [Row.sides, h.left, h.get]
  rfl

theorem Row.Pairs.bindsPair (h : row.Pairs vs target p) :
    row.BindsPair vs target (Row.sides vs target) := by
  rw [BindsPair, h.sides]
  exact ⟨h.left, h.get⟩

/-- A row of the left side with one of the right side, where the right one binds other
variables. -/
theorem Row.Pairs.merge {left right : Plan} (visible : right.visible = [target]) {other : Row}
    {m n : Match} (hm : left.matchOf row = .ok m) {P : VariableId → Prop} (within : other.Within P)
    (apart : ∀ v ∈ left.visible, ¬ P v.id) (hn : right.matchOf other = .ok n) :
    (row.merge other).Pairs left.visible target (m, n) := by
  obtain ⟨left_read, -, left_facts⟩ := Plan.matchOf_eq_ok_iff.1 hm
  obtain ⟨right_read, -, right_facts⟩ := Plan.matchOf_eq_ok_iff.1 hn
  rw [visible] at right_read
  refine ⟨?_, Row.read_merge right_read row, ?_⟩
  · rw [Row.read_merge_of_within within apart, left_read]
  · refine HandleSet.ascending_eq_of_mem_iff fun h => ?_
    show h ∈ row.facts ++ other.facts ↔ _
    rw [left_facts, right_facts]
    simp only [List.mem_append, HandleSet.mem_ascending]

end

section
variable {groups : GroupRows} {facts : List Fact} {left right e : Expression}
  {joiners : List Joiner} {rule : JoinRule} {tests : List Condition} {rows others : List Row}
  {ms ns : List Match} {w w' : Weigher}

/-- Rows of both sides, all with all, are in step with the pairs of their matches. -/
theorem Expression.product_in_step (grouped : groups.Grouped)
    (single : right.visible = [right.last.bound]) (apart : left.Apart right)
    (hms : (left.toPlan w).matchesOf rows = .ok ms)
    (hothers : Condition.deriveAll groups facts 0 [Row.empty] right.log.oldestFirst = .ok others)
    (hns : (right.toPlan w).matchesOf others = .ok ns) :
    List.Forall₂ (Row.Pairs left.visible right.last.bound) (Row.product rows others)
      (ms ×ˢ ns) := by
  have within : ∀ row ∈ others,
      row.Within fun id => ∃ v ∈ right.log.oldestFirst.flatMap Condition.binds, v.id = id := by
    refine Condition.within_deriveAll grouped (fun v hv => ⟨v, hv, rfl⟩) (fun row hrow => ?_)
      hothers
    rw [List.mem_singleton.1 hrow]
    exact fun b hb => absurd hb List.not_mem_nil
  refine Row.product_in_step (Plan.matchesOf_eq_ok_iff.1 hms)
    ((List.forall₂_and_left _ _).2 ⟨within, Plan.matchesOf_eq_ok_iff.1 hns⟩) ?_
  intro row m other n hm hn
  refine Row.Pairs.merge single hm hn.1 ?_ hn.2
  rintro v hv ⟨u, hu, same⟩
  exact apart u hu v (List.mem_append_left _ hv) same.symm

/-- **The matches of a join are pairs of matches of its sides**, those on which all joiners hold. -/
theorem Expression.derive_pairs (grouped : groups.Grouped)
    (merged : Joiner.merge joiners = .ok rule)
    (single : right.visible = [right.last.bound]) (apart : left.Apart right)
    (visible : e.visible = left.visible ++ [right.last.bound])
    (conditions : e.log.oldestFirst = left.log.oldestFirst ++ right.log.oldestFirst ++ tests)
    (does : List.Forall₂ Condition.Does tests (joinSteps left.visible right.last.bound rule))
    (hms : (left.toPlan w).derive groups facts 0 = .ok ms)
    (hns : (right.toPlan w).derive groups facts 0 = .ok ns) :
    (e.toPlan w').derive groups facts 0 =
      .ok (((ms ×ˢ ns).filter (Match.fit joiners)).map fun p => p.1.beside w' p.2) := by
  obtain ⟨rows, hrows, hms⟩ := bind_eq_ok.1 hms
  obtain ⟨others, hothers, hns⟩ := bind_eq_ok.1 hns
  have pairs := product_in_step grouped single apart hms hothers hns
  have bound : ∀ row ∈ Row.product rows others, row.BindsPair left.visible right.last.bound
      (Row.sides left.visible right.last.bound) :=
    ((List.forall₂_and_left _ _).1 (pairs.imp fun row p hp => ⟨hp.bindsPair, hp⟩)).1
  have both := Condition.deriveAll_product hothers rows
  rw [Row.product_empty] at both
  have all_rows : Condition.deriveAll groups facts 0 [Row.empty] (e.toPlan w').conditions =
      .ok ((Row.product rows others).filter fun row =>
        rule.holds (row.sides left.visible right.last.bound).1
          (row.sides left.visible right.last.bound).2) := by
    have first : Condition.deriveAll groups facts 0 [Row.empty] left.log.oldestFirst = .ok rows :=
      hrows
    show Condition.deriveAll groups facts 0 [Row.empty] e.log.oldestFirst = _
    rw [← joinSteps_keep does groups facts 0 bound, conditions, Condition.deriveAll_append,
      Condition.deriveAll_append, first]
    show Condition.deriveAll groups facts 0 rows (right.toPlan w).conditions >>= _ = _
    rw [both]
    rfl
  rw [Plan.derive, all_rows]
  refine Plan.matchesOf_eq_ok_iff.2 (List.forall₂_map_right_iff.2 ?_)
  refine (List.rel_filter (fun row p hp => ?_) pairs).imp fun row p hp => ?_
  · show rule.holds _ _ = true ↔ Match.fit joiners p = true
    rw [hp.sides, Joiner.merge_holds merged, Match.fit]
  · refine Plan.matchOf_eq_ok_iff.2 ⟨?_, rfl, hp.facts.symm⟩
    show row.read e.visible = _
    rw [visible]
    exact Row.read_append hp.left hp.right

end

/-! ## The same pairs -/

/-- Pairs with the other column running first are the same pairs. -/
theorem map_swap_product_perm {α β : Type} (as : List α) (bs : List β) :
    ((as ×ˢ bs).map Prod.swap).Perm (bs ×ˢ as) := by
  induction as with
  | nil =>
    rw [List.product_nil]
    exact .nil
  | cons a as ih =>
    have first : (bs.map (Prod.mk a)).map Prod.swap = bs.map fun b => (b, a) := List.map_map
    rw [List.product_cons, List.map_append, first]
    exact (ih.append_left _).trans (List.map_append_flatMap_perm bs _ _)

/-- The same pairs of values from the same facts, with the values swapped and in any order. -/
def Mirrored (ms ms' : List Match) : Prop :=
  ∃ pairs : List (Value × Value × List Nat),
    ms.map (fun m => (m.values, m.facts)) = pairs.map (fun (x, y, facts) => ([x, y], facts)) ∧
    (ms'.map fun m => (m.values, m.facts)).Perm
      (pairs.map fun (x, y, facts) => ([y, x], facts))

namespace Match

/-- A match of one value. -/
def Single (m : Match) : Prop := m.values = [valueAt 0 m.values]

variable {m n : Match}

theorem values_beside (hm : m.Single) (hn : n.Single) (w : Weigher) :
    (m.beside w n).values = [valueAt 0 m.values, valueAt 0 n.values] := by
  show m.values ++ n.values = _
  rw [hm, hn]
  rfl

theorem fit_swap (hm : m.Single) (hn : n.Single) (joiners : List Joiner) :
    fit (joiners.map Joiner.swap) (n, m) = fit joiners (m, n) := by
  have all := Joiner.all_holds_swap joiners (valueAt 0 m.values) (valueAt 0 n.values)
  rwa [← hm, ← hn] at all

theorem facts_beside_swap (m n : Match) (w w' : Weigher) :
    (n.beside w' m).facts = (m.beside w n).facts := by
  refine HandleSet.ascending_eq_of_mem_iff fun h => ?_
  rw [List.mem_append, List.mem_append, or_comm]

end Match

/-- What a join finds from either side. -/
theorem mirrored_of_pairs {ms ns : List Match} (single : ∀ m ∈ ms, m.Single)
    (single' : ∀ n ∈ ns, n.Single) (joiners : List Joiner) (w w' : Weigher) :
    Mirrored (((ms ×ˢ ns).filter (Match.fit joiners)).map fun p => p.1.beside w p.2)
      (((ns ×ˢ ms).filter (Match.fit (joiners.map Joiner.swap))).map fun p =>
        p.1.beside w' p.2) := by
  have singles : ∀ p ∈ ms ×ˢ ns, p.1.Single ∧ p.2.Single := fun p hp =>
    (List.mem_product.1 hp).imp (single p.1) (single' p.2)
  refine ⟨((ms ×ˢ ns).filter (Match.fit joiners)).map fun p =>
    (valueAt 0 p.1.values, valueAt 0 p.2.values, (p.1.beside w p.2).facts), ?_, ?_⟩
  · rw [List.map_map, List.map_map]
    refine List.map_congr_left fun p hp => Prod.ext ?_ rfl
    obtain ⟨hm, hn⟩ := singles p (List.mem_of_mem_filter hp)
    exact Match.values_beside hm hn w
  · refine ((((map_swap_product_perm ms ns).symm.filter _).map _).map _).trans (.of_eq ?_)
    have turned : ∀ p ∈ ms ×ˢ ns,
        (Match.fit (joiners.map Joiner.swap) ∘ Prod.swap) p = Match.fit joiners p := fun p hp =>
      Match.fit_swap (singles p hp).1 (singles p hp).2 joiners
    rw [List.filter_map, List.map_map, List.map_map, List.map_map, List.filter_congr turned]
    refine List.map_congr_left fun p hp => Prod.ext ?_ (Match.facts_beside_swap p.1 p.2 w w')
    obtain ⟨hm, hn⟩ := singles p (List.mem_of_mem_filter hp)
    exact Match.values_beside hn hm w'

/-! ## Both ways round -/

section
variable {s₁ s₂ : Supply} {es₁ es₂ : List (Term × Expression)} {t u : Term} {a b : Expression}
  {joiners : List Joiner}

/-- What a session finds for a join, told from what it finds for the sides. -/
theorem Registry.Shapes.derive_join {r : Registry} {left right e : Expression} {s : Supply}
    (hl : r.Shapes t left) (hr : r.Shapes u right) (single : right.degree = 1)
    (makes : (left.join right joiners).Yields r.supply e s) {groups : GroupRows}
    (grouped : groups.Grouped) {facts : List Fact} {ms ns : List Match} {w : Weigher}
    (hms : (left.toPlan .unit).derive groups facts 0 = .ok ms)
    (hns : (right.toPlan .unit).derive groups facts 0 = .ok ns) :
    (e.toPlan w).derive groups facts 0 =
      .ok (((ms ×ˢ ns).filter (Match.fit joiners)).map fun p => p.1.beside w p.2) := by
  obtain ⟨-, -, -, -, -, visible, rule, tests, joinable, conditions, does⟩ :=
    reaches_join hl hr makes
  obtain ⟨-, -, shared, merged⟩ := joinable_eq_ok.1 joinable
  exact Expression.derive_pairs grouped merged (hr.inStep.visible_of_degree single)
    ((hr.sharedVariable_eq_none_iff hl.inStep).1 shared) visible conditions does hms hns

/-- The conditions of both sides are among those of their join. -/
theorem Registry.Shapes.parts_join {r : Registry} {left right e : Expression} {s : Supply}
    (hl : r.Shapes t left) (hr : r.Shapes u right)
    (makes : (left.join right joiners).Yields r.supply e s) :
    ∀ d ∈ Condition.partsAll (left.log.oldestFirst ++ right.log.oldestFirst),
      d ∈ Condition.partsAll e.log.oldestFirst := by
  obtain ⟨-, -, -, -, -, -, rule, tests, -, conditions, -⟩ := reaches_join hl hr makes
  rw [conditions, Condition.partsAll_append _ tests]
  exact fun d hd => List.mem_append_left _ hd

theorem Plan.single_of_derive {plan : Plan} {groups : GroupRows} {facts : List Fact}
    {limit : Nat} {ms : List Match} {v : Variable} (visible : plan.visible = [v])
    (h : plan.derive groups facts limit = .ok ms) : ∀ m ∈ ms, m.Single := by
  obtain ⟨rows, -, h⟩ := bind_eq_ok.1 h
  have single : ∀ row m, plan.matchOf row = .ok m → m.Single := by
    intro row m hm
    obtain ⟨read, -⟩ := Plan.matchOf_eq_ok_iff.1 hm
    rw [visible] at read
    exact Row.values_of_read_singleton read
  have reads : List.Forall₂ (fun m row => m.Single ∧ plan.matchOf row = .ok m) ms rows :=
    .flip ((Plan.matchesOf_eq_ok_iff.1 h).imp fun row m hm => ⟨single row m hm, hm⟩)
  exact ((List.forall₂_and_left _ _).1 reads).1

/-- Both plans have matches, and the ones mirror the others. -/
def Session.Mirror (answers : Plan → Except SessionError (List Match) → Prop)
    (plan plan' : Plan) : Prop :=
  ∃ ms ms', answers plan (.ok ms) ∧ answers plan' (.ok ms') ∧ Mirrored ms ms'

/-- Joins whose matches follow from the same groups, as do those of their sides, mirror each
other. -/
theorem Session.Told.mirror {session : Session} {pool : List Plan}
    {answers : Plan → Except SessionError (List Match) → Prop} {r r' : Registry}
    (told : session.Told pool answers) (a_shapes : r.Shapes t a) (b_shapes : r.Shapes u b)
    (a_shapes' : r'.Shapes t a) (b_shapes' : r'.Shapes u b) (a_single : a.degree = 1)
    (b_single : b.degree = 1) {ab ba : Expression} {s s' : Supply}
    (makes : (a.join b joiners).Yields r.supply ab s)
    (makes' : (b.join a (joiners.map Joiner.swap)).Yields r'.supply ba s') {w w' : Weigher}
    (known : [a.toPlan .unit, b.toPlan .unit, ab.toPlan w, ba.toPlan w'] ⊆ pool)
    (verified : ∀ plan ∈ [ab.toPlan w, ba.toPlan w'], plan.verify = .ok ()) :
    Mirror answers (ab.toPlan w) (ba.toPlan w') := by
  obtain ⟨groups, grouped, told⟩ := told
  simp only [List.cons_subset, List.nil_subset, and_true] at known
  obtain ⟨a_known, b_known, ab_known, ba_known⟩ := known
  simp only [List.forall_mem_cons, List.not_mem_nil, false_implies, implies_true,
    and_true] at verified
  obtain ⟨ms, hms, -⟩ := told _ a_known (a_shapes.verify .unit)
  obtain ⟨ns, hns, -⟩ := told _ b_known (b_shapes.verify .unit)
  have found := a_shapes.derive_join b_shapes b_single makes grouped (w := w) hms hns
  have found' := b_shapes'.derive_join a_shapes' a_single makes' grouped (w := w') hns hms
  obtain ⟨js, hjs, answered⟩ := told _ ab_known verified.1
  obtain ⟨js', hjs', answered'⟩ := told _ ba_known verified.2
  cases hjs.symm.trans found
  cases hjs'.symm.trans found'
  refine ⟨_, _, answered, answered', ?_⟩
  exact mirrored_of_pairs (Plan.single_of_derive (a_shapes.inStep.visible_of_degree a_single) hms)
    (Plan.single_of_derive (b_shapes.inStep.visible_of_degree b_single) hns) joiners w w'

/-- **Swapping the sides of a join changes nothing but the order.**  Two expressions of one value
can be joined both ways round or not at all.  Whatever a session without limit was asked before, in
whatever order it evaluates plans and on whatever tours, both joins find the same pairs.  On the
same tours these are always the same pairs; otherwise they are those of one run of evaluations. -/
theorem Session.join_mirrored (built₁ : LooselyBuilt s₁ es₁) (built₂ : LooselyBuilt s₂ es₂)
    (a_operand₁ : (t, a) ∈ es₁) (b_operand₁ : (u, b) ∈ es₁) (a_operand₂ : (t, a) ∈ es₂)
    (b_operand₂ : (u, b) ∈ es₂) (a_single : a.degree = 1) (b_single : b.degree = 1)
    (joiners : List Joiner) :
    ((a.join b joiners).Succeeds s₁ ↔ (b.join a (joiners.map Joiner.swap)).Succeeds s₂) ∧
    ∀ ab ba s₁' s₂', (a.join b joiners).Yields s₁ ab s₁' →
      (b.join a (joiners.map Joiner.swap)).Yields s₂ ba s₂' →
      ∀ (history : List Request) (pool : List Plan) (w w' : Weigher),
        Condition.Identified
          (history.flatMap Request.conditions ++ pool.flatMap (·.conditions)) →
        [ab.toPlan w, ba.toPlan w'] ⊆ pool →
        let session := (start 0).run history
        (∀ visits, Mirror (session.AnswersOn visits pool) (ab.toPlan w) (ba.toPlan w')) ∧
          ∀ evaluations : List (Plan × Visits), evaluations.map (·.1) ⊆ pool →
            Mirror (session.AnswersIn evaluations) (ab.toPlan w) (ba.toPlan w') := by
  obtain ⟨r₁, rfl, shapes₁⟩ := built₁.exists_registry
  obtain ⟨r₂, rfl, shapes₂⟩ := built₂.exists_registry
  have a_shapes := shapes₁ _ a_operand₁
  have b_shapes := shapes₁ _ b_operand₁
  refine ⟨?_, fun ab ba s₁' s₂' makes makes' history pool w w' identified known => ?_⟩
  · rw [Expression.succeeds_join_iff, Expression.succeeds_join_iff]
    exact a_shapes.joinable_swap b_shapes a_single b_single joiners
  intro session
  have verified : ∀ plan ∈ [ab.toPlan w, ba.toPlan w'], plan.verify = .ok () := by
    simp only [List.forall_mem_cons, List.not_mem_nil, false_implies, implies_true, and_true]
    exact ⟨(built₁.operation (.join a_operand₁ b_operand₁ makes)).verify (.head _) w,
      (built₂.operation (.join b_operand₂ a_operand₂ makes')).verify (.head _) w'⟩
  -- the sides are evaluated as well; their conditions are those of the join
  let sides := a.toPlan .unit :: b.toPlan .unit :: pool
  have widened : pool ⊆ sides := fun _ h => .tail _ (.tail _ h)
  have whole : Condition.Identified
      (history.flatMap Request.conditions ++ sides.flatMap (·.conditions)) := by
    refine identified.mono_right fun d hd => ?_
    rw [List.flatMap_cons, List.flatMap_cons, ← List.append_assoc, Condition.partsAll_append,
      List.mem_append] at hd
    rcases hd with hd | hd
    · exact Condition.mem_partsAll_flatMap (known List.mem_cons_self)
        (a_shapes.parts_join b_shapes makes d hd)
    · exact hd
  have listed : [a.toPlan .unit, b.toPlan .unit, ab.toPlan w, ba.toPlan w'] ⊆ sides :=
    List.cons_subset_cons _ (List.cons_subset_cons _ known)
  refine ⟨fun visits => ?_, fun evaluations asked => ?_⟩
  · obtain ⟨ms, ms', found, found', mirrored⟩ := (told_on whole visits).mirror a_shapes b_shapes
      (shapes₂ _ a_operand₂) (shapes₂ _ b_operand₂) a_single b_single makes makes' listed verified
    exact ⟨ms, ms', fun evaluations asked => found evaluations (List.Subset.trans asked widened),
      fun evaluations asked => found' evaluations (List.Subset.trans asked widened), mirrored⟩
  · exact (told_in whole (List.Subset.trans asked widened)).mirror a_shapes b_shapes
      (shapes₂ _ a_operand₂) (shapes₂ _ b_operand₂) a_single b_single makes makes' listed verified

/-- The different values of one type against the facts of another that are greater and not null, and
the other way round. -/
theorem Session.join_mirrored_grouped :
    let keys : KeyPair := ⟨valueAt 0, id⟩
    let greater : Condition :=
      .step 6 (.join ⟨[Sample.x], Sample.k, 0, ⟨.greaterThan, keys.swap⟩⟩)
    let kept : Condition := .step 7 (.filter [Sample.x, Sample.k]
      (JoinPredicates.overPair [fun tuple k => Sample.present [k] (valueAt 0 tuple)] 1))
    let a : Expression := Sample.values
    let b : Expression := Sample.rivals
    let ab : Expression := Sample.rises
    let log : Log := .link (.link (.link b.log 6 2 Sample.group) 7 3 greater) 8 4 kept
    let ba : Expression := ⟨[⟨Sample.x, b.log⟩], ⟨Sample.k, log⟩, ⟨[Sample.x, Sample.k], log⟩⟩
    let pool : List Plan := [ab.toPlan .unit, ba.toPlan .unit]
    let history : List Request := [.insert Sample.left (.int 1), .insert Sample.right (.int 3),
      .evaluate (ab.toPlan .unit) .descending, .insert Sample.left (.decimal ⟨10, 1⟩),
      .insert Sample.right .null, .update 1 (.int 5), .insert Sample.right (.int 7)]
    let session := (start 0).run history
    (∃ s es s₁ s₂, LooselyBuilt s es ∧ (Sample.grouping, a) ∈ es ∧
      (.forEach Sample.right, b) ∈ es ∧ (a.join b Sample.joiners).Yields s ab s₁ ∧
      (b.join a (Sample.joiners.map Joiner.swap)).Yields s₁ ba s₂) ∧
      a.degree = 1 ∧ b.degree = 1 ∧
      Condition.Identified (history.flatMap Request.conditions ++ pool.flatMap (·.conditions)) ∧
      (∀ visits, Mirror (session.AnswersOn visits pool) (ab.toPlan .unit) (ba.toPlan .unit)) ∧
      ∀ evaluations : List (Plan × Visits), evaluations.map (·.1) ⊆ pool →
        Mirror (session.AnswersIn evaluations) (ab.toPlan .unit) (ba.toPlan .unit) := by
  intro keys greater kept a b ab log ba pool history session
  obtain ⟨s, makes_ba⟩ : ∃ s, (b.join a (Sample.joiners.map Joiner.swap)).Yields Sample.afterRises
      ba s := ⟨_, rfl⟩
  have built := LooselyBuilt.of_built Sample.built_rivals
  have built_again := LooselyBuilt.of_built Sample.built_rises
  have identified :
      Condition.Identified (history.flatMap Request.conditions ++ pool.flatMap (·.conditions)) := by
    refine .of_subset [Sample.first, Sample.group, Sample.third, Sample.less, Sample.kept, greater,
      kept] ?_ ?_
    · show [Sample.group, Sample.first, Sample.third, Sample.less, Sample.kept, Sample.group,
        Sample.first, Sample.third, Sample.less, Sample.kept, Sample.third, Sample.group,
        Sample.first, greater, kept] ⊆ _
      simp
    · show [1, 2, 3, 4, 5, 6, 7].Nodup
      decide
  obtain ⟨-, found⟩ := join_mirrored built built_again (.tail _ (.head _)) (.head _)
    (.tail _ (.tail _ (.head _))) (.tail _ (.head _)) rfl rfl Sample.joiners
  exact ⟨⟨_, _, _, s, built, .tail _ (.head _), .head _, Sample.makes_rises, makes_ba⟩, rfl, rfl,
    identified, found ab ba _ s Sample.makes_rises makes_ba history pool .unit .unit identified
      (List.Subset.refl _)⟩

end

end MatchAlgebra
