import MatchAlgebra.Proofs.Merging

/-!
# Which lists of joiners are in order

Joiners are in order if there are none, if a single one matches all, or if comparisons come first
and filters after them.  Merging succeeds on just these lists.  On any other it fails with a report
of the first joiner that is out of place, which every operation that takes joiners passes on:

    (∃ rule, merge joiners = .ok rule) ↔ InOrder joiners
    ¬ InOrder joiners → ∃ i e, Blamed joiners i e ∧ merge joiners = .error e ∧ ...

What is in order is told by a grammar, what is out of place by position.  The two meet in
`inOrder_iff`, an induction over the list.  Merging goes by position (`mergeFrom_cons`): it stops at
a joiner just if that joiner is out of place, given that none before it is.
-/

namespace MatchAlgebra

def KeyComparison.joiner (c : KeyComparison) : Joiner := .comparing c.comparison c.keys

namespace Joiner

/-! ## The grammar and the places -/

/-- The lists of joiners that have an order in which they can be served. -/
inductive InOrder : List Joiner → Prop
  | nothing : InOrder []
  | alone : InOrder [.matchAll]
  | sorted (comparisons : List KeyComparison) (predicates : List JoinPredicate) :
      InOrder (comparisons.map KeyComparison.joiner ++ predicates.map Joiner.filtering)

/-- The joiner at a position is out of place: it matches all, but not alone, or it compares, but
after a filter. -/
inductive Breaks (joiners : List Joiner) (i : Nat) : Prop
  | beside (here : joiners[i]? = some .matchAll) (several : 1 < joiners.length)
  | late {comparison : Comparison} {keys : KeyPair} {j : Nat} {predicate : JoinPredicate}
      (here : joiners[i]? = some (.comparing comparison keys)) (before : j < i)
      (filter : joiners[j]? = some (.filtering predicate))

variable {joiners all before rest : List Joiner} {joiner : Joiner} {i : Nat}

/-- A joiner that is out of place stays so when another is put in front of the list. -/
theorem Breaks.cons (h : Breaks joiners i) (joiner : Joiner) :
    Breaks (joiner :: joiners) (i + 1) := by
  cases h with
  | beside here several => exact .beside here (Nat.lt_succ_of_lt several)
  | late here before filter => exact .late here (Nat.succ_lt_succ before) filter

theorem Breaks.lt_length (h : Breaks joiners i) : i < joiners.length := by
  cases h with
  | beside here => exact (List.getElem?_eq_some_iff.1 here).1
  | late here => exact (List.getElem?_eq_some_iff.1 here).1

theorem InOrder.not_breaks (h : InOrder joiners) (i : Nat) : ¬ Breaks joiners i := by
  intro breaks
  cases h with
  | nothing => cases breaks with
    | beside here => simp at here
    | late here => simp at here
  | alone => cases breaks with
    | beside here several => simp at several
    | late here => simp [List.getElem?_singleton] at here
  | sorted comparisons predicates => cases breaks with
    | beside here =>
      have mem := List.mem_of_getElem? here
      simp [KeyComparison.joiner] at mem
    | @late comparison keys j predicate here before filter =>
      -- the comparison is in the first part, the filter in the second
      have left : i < comparisons.length := by
        by_contra right
        rw [List.getElem?_append_right (by simpa using right)] at here
        simpa using List.mem_of_getElem? here
      rw [List.getElem?_append_left (by simpa using before.trans left)] at filter
      simpa [KeyComparison.joiner] using List.mem_of_getElem? filter

theorem inOrder_of_not_breaks (h : ∀ i, ¬ Breaks joiners i) : InOrder joiners := by
  induction joiners with
  | nil => exact .nothing
  | cons joiner rest ih =>
    have ordered := ih fun i breaks => h (i + 1) (breaks.cons joiner)
    cases joiner with
    | comparing comparison keys => cases ordered with
      | nothing => exact .sorted [⟨comparison, keys⟩] []
      | alone => exact absurd (.beside rfl (by simp)) (h 1)
      | sorted comparisons predicates =>
        exact .sorted (⟨comparison, keys⟩ :: comparisons) predicates
    | matchAll => cases rest with
      | nil => exact .alone
      | cons => exact absurd (.beside rfl (by simp)) (h 0)
    | filtering predicate => cases ordered with
      | nothing => exact .sorted [] [predicate]
      | alone => exact absurd (.beside rfl (by simp)) (h 1)
      | sorted comparisons predicates => cases comparisons with
        | nil => exact .sorted [] (predicate :: predicates)
        | cons => exact absurd (.late rfl Nat.zero_lt_one rfl) (h 1)

theorem inOrder_iff : InOrder joiners ↔ ∀ i, ¬ Breaks joiners i :=
  ⟨InOrder.not_breaks, inOrder_of_not_breaks⟩

/-! ## The report -/

/-- A list of joiners as a report shows it. -/
def rendering (joiners : List Joiner) : String :=
  Listing.bracketed (joiners.zipIdx.map fun (joiner, i) => s!"#{i} {joiner.kind.name}")

theorem describe_map_kind (joiners : List Joiner) :
    JoinerKind.describe (joiners.map kind) = rendering joiners := by
  rw [JoinerKind.describe, rendering, List.zipIdx_map, List.map_map]
  rfl

theorem message_matchAllNotAlone (joiners : List Joiner) (i : Nat) :
    (PlanError.matchAllNotAlone i (joiners.map kind)).message =
      s!"If present, the none joiner must be the only joiner, got {rendering joiners} "
        ++ s!"instead (none joiner at #{i})." := by
  rw [← describe_map_kind]
  rfl

theorem message_comparingAfterFiltering (joiners : List Joiner) (i j : Nat) (c : Comparison)
    (keys : KeyPair) (predicate : JoinPredicate) :
    (PlanError.comparingAfterFiltering i c j (joiners.map kind)).message =
      s!"Indexing joiner #{i} ({(comparing c keys).kind.name}) must not follow a filtering joiner "
        ++ s!"#{j} ({(filtering predicate).kind.name}) in {rendering joiners}." := by
  rw [← describe_map_kind]
  rfl

/-- The error that reports the joiner at a position, with its text. -/
inductive Reported (joiners : List Joiner) (i : Nat) (e : PlanError) : Prop
  | beside (here : joiners[i]? = some .matchAll)
      (error : e = .matchAllNotAlone i (joiners.map kind))
      (text : e.message =
      s!"If present, the none joiner must be the only joiner, got {rendering joiners} "
        ++ s!"instead (none joiner at #{i}).")
  /-- The filter named along with a comparison is the first of the list. -/
  | late {c : Comparison} {keys : KeyPair} {j : Nat} {predicate : JoinPredicate}
      (here : joiners[i]? = some (.comparing c keys))
      (filter : joiners[j]? = some (.filtering predicate))
      (first : ∀ k < j, ∀ other, joiners[k]? ≠ some (.filtering other))
      (error : e = .comparingAfterFiltering i c j (joiners.map kind))
      (text : e.message =
      s!"Indexing joiner #{i} ({(comparing c keys).kind.name}) must not follow a filtering joiner "
        ++ s!"#{j} ({(filtering predicate).kind.name}) in {rendering joiners}.")

/-- The joiner at the position is the first out of place, and the error reports it. -/
structure Blamed (joiners : List Joiner) (i : Nat) (e : PlanError) : Prop where
  breaks : Breaks joiners i
  first : ∀ j < i, ¬ Breaks joiners j
  reported : Reported joiners i e

/-! ## Merging, one joiner at a time -/

theorem isFiltering_iff :
    joiner.isFiltering = true ↔ ∃ predicate, joiner = .filtering predicate := by
  cases joiner <;> simp [isFiltering]

/-- Whether a joiner is out of place, told from what is known of its list. -/
def outOfPlace (several filtered : Bool) : Joiner → Bool
  | .comparing .. => filtered
  | .matchAll => several
  | .filtering _ => false

/-- The report of a joiner that is out of place. -/
def complaint (all : List Joiner) (i : Nat) : Joiner → PlanError
  | .comparing comparison _ =>
    .comparingAfterFiltering i comparison (all.findIdx isFiltering) (all.map kind)
  | _ => .matchAllNotAlone i (all.map kind)

theorem mergeFrom_cons (all : List Joiner) (i : Nat) (joiner : Joiner) (rest : List Joiner)
    (rule : JoinRule) :
    mergeFrom all i (joiner :: rest) rule =
      if joiner.outOfPlace (1 < all.length) rule.filter.isSome then .error (complaint all i joiner)
      else mergeFrom all (i + 1) rest (rule.add joiner) := by
  cases joiner with
  | comparing comparison keys => rfl
  | matchAll =>
    rw [mergeFrom, outOfPlace]
    simp only [decide_eq_true_eq]
    rfl
  | filtering predicate => rfl

/-- Filters among the joiners before a position, told by position. -/
theorem any_isFiltering_iff (h : all = before ++ joiner :: rest) :
    before.any isFiltering = true ↔
      ∃ j < before.length, ∃ predicate, all[j]? = some (.filtering predicate) := by
  have same : ∀ j < before.length, all[j]? = before[j]? := fun j hj => by
    rw [h, List.getElem?_append_left hj]
  constructor
  · intro filtered
    obtain ⟨filter, mem, filters⟩ := List.any_eq_true.1 filtered
    obtain ⟨j, hj, rfl⟩ := List.getElem_of_mem mem
    obtain ⟨predicate, filter⟩ := isFiltering_iff.1 filters
    exact ⟨j, hj, predicate, by rw [same j hj, List.getElem?_eq_getElem hj, filter]⟩
  · rintro ⟨j, hj, predicate, filter⟩
    rw [same j hj] at filter
    exact List.any_eq_true.2 ⟨_, List.mem_of_getElem? filter, rfl⟩

theorem getElem?_length (h : all = before ++ joiner :: rest) :
    all[before.length]? = some joiner := by
  simp [h]

/-- The test by which merging stops is right. -/
theorem breaks_iff (h : all = before ++ joiner :: rest) :
    Breaks all before.length ↔
      joiner.outOfPlace (1 < all.length) (before.any isFiltering) = true := by
  have here := getElem?_length h
  constructor
  · intro breaks
    cases breaks with
    | beside matchAll several =>
      cases Option.some.inj (here.symm.trans matchAll)
      exact decide_eq_true several
    | late comparing earlier filter =>
      cases Option.some.inj (here.symm.trans comparing)
      exact (any_isFiltering_iff h).2 ⟨_, earlier, _, filter⟩
  · intro outOfPlace
    cases joiner with
    | comparing comparison keys =>
      obtain ⟨j, earlier, predicate, filter⟩ := (any_isFiltering_iff h).1 outOfPlace
      exact .late here earlier filter
    | matchAll => exact .beside here (of_decide_eq_true outOfPlace)
    | filtering predicate => cases outOfPlace

/-- The filter that a report names is the first of the list. -/
theorem getElem?_findIdx_isFiltering {j : Nat} {predicate : JoinPredicate}
    (h : all[j]? = some (.filtering predicate)) :
    (∃ first, all[all.findIdx isFiltering]? = some (.filtering first)) ∧
      ∀ k < all.findIdx isFiltering, ∀ other, all[k]? ≠ some (.filtering other) := by
  have found := List.findIdx_lt_length_of_exists
    ⟨_, List.mem_of_getElem? h, isFiltering_iff.2 ⟨predicate, rfl⟩⟩
  obtain ⟨first, filter⟩ := isFiltering_iff.1 (List.findIdx_getElem (w := found))
  refine ⟨⟨first, by rw [List.getElem?_eq_getElem found, filter]⟩, fun k earlier other same => ?_⟩
  obtain ⟨hk, same⟩ := List.getElem?_eq_some_iff.1 same
  have passed := List.not_of_lt_findIdx earlier
  rw [same] at passed
  cases passed

theorem reported_complaint (h : all = before ++ joiner :: rest)
    (breaks : Breaks all before.length) :
    Reported all before.length (complaint all before.length joiner) := by
  have here := getElem?_length h
  cases breaks with
  | beside matchAll several =>
    cases Option.some.inj (here.symm.trans matchAll)
    exact .beside here rfl (message_matchAllNotAlone all _)
  | @late comparison keys _ _ comparing earlier filter =>
    cases Option.some.inj (here.symm.trans comparing)
    obtain ⟨⟨predicate, found⟩, first⟩ := getElem?_findIdx_isFiltering filter
    exact .late here found first rfl
      (message_comparingAfterFiltering all _ _ comparison keys predicate)

/-- Merging from a position on when no joiner before it is out of place: either none is after it,
or the first that is gets reported. -/
theorem mergeFrom_cases (h : all = before ++ rest) (kept : ∀ i < before.length, ¬ Breaks all i)
    {rule : JoinRule} (filtered : rule.filter.isSome = before.any isFiltering) :
    ((∃ merged, mergeFrom all before.length rest rule = .ok merged) ∧ ∀ i, ¬ Breaks all i) ∨
      ∃ i e, Blamed all i e ∧ mergeFrom all before.length rest rule = .error e := by
  induction rest generalizing before rule with
  | nil =>
    rw [List.append_nil] at h
    -- no joiner is left, so that those before are the whole list
    exact .inl ⟨⟨rule, rfl⟩, fun i breaks => kept i (h ▸ breaks.lt_length) breaks⟩
  | cons joiner rest ih =>
    rw [mergeFrom_cons, filtered]
    by_cases breaks : Breaks all before.length
    · rw [if_pos ((breaks_iff h).1 breaks)]
      exact .inr ⟨_, _, ⟨breaks, kept, reported_complaint h breaks⟩, rfl⟩
    · rw [if_neg (mt (breaks_iff h).2 breaks)]
      have next : (before ++ [joiner]).length = before.length + 1 := List.length_append
      rw [← next]
      refine ih (h.trans (List.append_cons before joiner rest)) (fun i hi => ?_) ?_
      · obtain earlier | rfl := Nat.lt_succ_iff_lt_or_eq.1 (next ▸ hi)
        · exact kept i earlier
        · exact breaks
      · rw [List.any_append, ← filtered]
        exact JoinRule.isSome_filter_foldl_add [joiner] rule

theorem merge_cases (joiners : List Joiner) :
    ((∃ rule, merge joiners = .ok rule) ∧ InOrder joiners) ∨
      ∃ i e, Blamed joiners i e ∧ merge joiners = .error e := by
  rw [inOrder_iff]
  exact mergeFrom_cases (List.nil_append joiners).symm (fun i hi => absurd hi (Nat.not_lt_zero i))
    rfl

theorem merges_iff : (∃ rule, merge joiners = .ok rule) ↔ InOrder joiners := by
  obtain ⟨merges, ordered⟩ | ⟨i, e, blamed, fails⟩ := merge_cases joiners
  · exact iff_of_true merges ordered
  · refine iff_of_false ?_ fun ordered => ordered.not_breaks i blamed.breaks
    rintro ⟨rule, merges⟩
    cases fails.symm.trans merges

end Joiner

/-! ## Operations that take joiners -/

namespace Expression

variable {joiners : List Joiner} {e : PlanError}

theorem checkExistence_of_error (h : Joiner.merge joiners = .error e) (expression : Expression)
    (factory : Factory) (quantifier : Quantifier) (type : FactType) (s : Supply) :
    (expression.checkExistence factory quantifier type joiners).run.run s = (.error e, s) := by
  rw [checkExistence, Build.run_bind, h]
  rfl

/-- A join looks at its joiners once both sides are known to fit. -/
theorem join_of_error (h : Joiner.merge joiners = .error e) {left right : Expression}
    (room : left.degree < maxDegree) (single : right.degree = 1)
    (disjoint : left.sharedVariable? right = none) (s : Supply) :
    (left.join right joiners).run.run s = (.error e, s) := by
  have refused : left.joinable right joiners = .error e := by
    rw [joinable, if_neg (Nat.not_le.2 room), if_neg (not_not_intro single), disjoint]
    exact h
  rw [join, Build.run_bind, refused]
  rfl

end Expression

/-! ## The verdict -/

namespace Joiner

/-- Merging accepts the lists that are in order.  Of any other it blames the first joiner out of
place, and so does every operation that takes the list. -/
structure Classified (joiners : List Joiner) : Prop where
  accepts : (∃ rule, merge joiners = .ok rule) ↔ InOrder joiners
  blames : ¬ InOrder joiners → ∃ i e, Blamed joiners i e ∧ merge joiners = .error e ∧
    (∀ (expression : Expression) factory quantifier type s,
      (expression.checkExistence factory quantifier type joiners).run.run s = (.error e, s)) ∧
    ∀ (left right : Expression) s, left.degree < maxDegree → right.degree = 1 →
      left.sharedVariable? right = none → (left.join right joiners).run.run s = (.error e, s)

theorem merge_classifies (joiners : List Joiner) : Classified joiners := by
  obtain ⟨merges, ordered⟩ | ⟨i, e, blamed, fails⟩ := merge_cases joiners
  · exact ⟨iff_of_true merges ordered, fun disordered => absurd ordered disordered⟩
  · have disordered : ¬ InOrder joiners := fun ordered => ordered.not_breaks i blamed.breaks
    refine ⟨iff_of_false ?_ disordered, fun _ => ⟨i, e, blamed, fails, ?_, ?_⟩⟩
    · rintro ⟨rule, merges⟩
      cases fails.symm.trans merges
    · exact Expression.checkExistence_of_error fails
    · exact fun left right s room single disjoint =>
        Expression.join_of_error fails room single disjoint s

/-- The earlier of two joiners out of place is reported, with the first of two filters. -/
example (keys : KeyPair) (first second : JoinPredicate) :
    merge [.filtering first, .filtering second, .comparing .lessThan keys, .matchAll] =
      .error (.comparingAfterFiltering 2 .lessThan 0
        [.filtering, .filtering, .comparing .lessThan, .matchAll]) := rfl

end Joiner

end MatchAlgebra
