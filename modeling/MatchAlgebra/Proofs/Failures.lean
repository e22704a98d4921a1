import MatchAlgebra.Proofs.Existence
import MatchAlgebra.Proofs.JoinerOrder
import MatchAlgebra.Proofs.Programs

/-!
# Failed calls leave no trace

A call of the algebra checks its arguments before it makes anything.  If a check fails, so does the
call, and the supply is as it was: no variable, no condition and no node has been drawn.  If the
checks pass, nothing later on fails:

    (c.build factory es).run.run s = (.error e, s')  ↔  c.checks es = .error e ∧ s' = s
                                                                               (atomic_build)

Joins and groupings end in a construction that could fail by itself, since it counts the slots it is
given.  A join has one slot more than its left side, which had room; a grouping has a slot for each
key and each collector of its request, which was found to be neither empty nor too long.
-/

namespace MatchAlgebra

/-! ## Builds over lists -/

namespace Build

variable {α β : Type} {f : α → Build β} {as : List α} {s s' : Supply} {bs : List β}

theorem succeeds_mapM (h : ∀ a s, (f a).Succeeds s) (as : List α) (s : Supply) :
    Succeeds (as.mapM f) s := by
  induction as generalizing s with
  | nil => exact succeeds_pure [] s
  | cons a as ih =>
    rw [List.mapM_cons]
    refine (h a s).bind fun b s₁ _ => (ih s₁).bind fun bs s₂ _ => ?_
    exact succeeds_pure (b :: bs) s₂

theorem exists_of_mapM_cons {a : α} (h : Yields ((a :: as).mapM f) s bs s') :
    ∃ b s₁ rest, bs = b :: rest ∧ (f a).Yields s b s₁ ∧ Yields (as.mapM f) s₁ rest s' := by
  rw [List.mapM_cons] at h
  obtain ⟨b, s₁, hb, h⟩ := bind_yields.1 h
  obtain ⟨rest, s₂, hrest, h⟩ := bind_yields.1 h
  obtain ⟨rfl, rfl⟩ := pure_yields.1 h
  exact ⟨b, s₁, rest, rfl, hb, hrest⟩

theorem length_of_mapM (h : Yields (as.mapM f) s bs s') : bs.length = as.length := by
  induction as generalizing s bs with
  | nil =>
    obtain ⟨rfl, -⟩ := pure_yields.1 h
    rfl
  | cons a as ih =>
    obtain ⟨b, s₁, rest, rfl, -, hrest⟩ := exists_of_mapM_cons h
    rw [List.length_cons, List.length_cons, ih hrest]

end Build

theorem succeeds_newStep (step : Step) (s : Supply) : (newStep step).Succeeds s :=
  (Build.succeeds_modifyGet _ s).bind fun _ s' _ => Build.succeeds_pure _ s'

namespace Expression

/-! ## Up to the last construction -/

/-- The slots that a join is made of. -/
def joinSlots (left right : Expression) (joiners : List Joiner) : Build (List Slot) := do
  let rule ← check (left.joinable right joiners)
  let target := right.last.bound
  let both ← Log.union [left.last.log, right.last.log]
  let log ← Log.appendSteps both (joinSteps left.visible target rule)
  return left.slots ++ [⟨target, log⟩]

theorem join_eq (left right : Expression) (joiners : List Joiner) :
    left.join right joiners = (do
      let slots ← left.joinSlots right joiners
      check (ofSlots slots)) := by
  simp only [join, joinSlots, bind_assoc, pure_bind]

theorem exists_ofSlots_of_length {slots : List Slot} (some : slots ≠ [])
    (room : slots.length ≤ maxDegree) : ∃ e, ofSlots slots = .ok e := by
  obtain ⟨front, last, rfl⟩ := (List.eq_nil_or_concat' slots).resolve_left some
  refine exists_ofSlots last ?_
  rwa [List.length_append] at room

variable {e left right : Expression} {factory : Factory} {joiners : List Joiner}
  {request : GroupRequest} {slots : List Slot} {s s' : Supply}

theorem exists_of_joinSlots (h : (left.joinSlots right joiners).Yields s slots s') :
    ∃ e, ofSlots slots = .ok e := by
  obtain ⟨rule, s₁, hrule, h⟩ := Build.bind_yields.1 h
  obtain ⟨both, s₂, -, h⟩ := Build.bind_yields.1 h
  obtain ⟨log, s₃, -, h⟩ := Build.bind_yields.1 h
  obtain ⟨rfl, -⟩ := Build.pure_yields.1 h
  exact exists_ofSlots _ (Registry.joinable_eq_ok.1 (Build.check_yields.1 hrule).1).1

/-! ## Parts of a grouping -/

theorem succeeds_sourceLog (collectors : List Collector) (inputs : List Variable) (log : Log)
    (s : Supply) : (sourceLog factory collectors inputs log).Succeeds s := by
  unfold sourceLog
  by_cases none : collectors.isEmpty = true
  · rw [if_pos none]
    exact Build.succeeds_pure _ s
  · rw [if_neg none]
    refine Build.Succeeds.bind ?_ fun _ s₁ _ => Build.succeeds_pure _ s₁
    refine (Build.succeeds_modifyGet _ s).bind fun source s₁ _ => ?_
    exact (Log.succeeds_appendSteps _ _ s₁).bind fun _ s₂ _ => Build.succeeds_pure _ s₂

theorem succeeds_groupKey (keys : List TupleFunction) (s : Supply) :
    (groupKey factory keys).Succeeds s := by
  match keys with
  | [] => exact Build.succeeds_pure _ s
  | [_] => exact (Build.succeeds_modifyGet _ s).bind fun _ s₁ _ => Build.succeeds_pure _ s₁
  | _ :: _ :: _ => exact (Build.succeeds_modifyGet _ s).bind fun _ s₁ _ => Build.succeeds_pure _ s₁

/-- There is a key if one was asked for. -/
theorem isSome_of_groupKey {keys : List TupleFunction} {key : Option GroupKey}
    (h : (groupKey factory keys).Yields s key s') : key = none ↔ keys = [] := by
  match keys with
  | [] =>
    obtain ⟨rfl, -⟩ := Build.pure_yields.1 h
    exact iff_of_true rfl rfl
  | [_] =>
    obtain ⟨bound, s₁, -, h⟩ := Build.bind_yields.1 h
    obtain ⟨rfl, -⟩ := Build.pure_yields.1 h
    exact iff_of_false (Option.some_ne_none _) (List.cons_ne_nil _ _)
  | _ :: _ :: _ =>
    obtain ⟨bound, s₁, -, h⟩ := Build.bind_yields.1 h
    obtain ⟨rfl, -⟩ := Build.pure_yields.1 h
    exact iff_of_false (Option.some_ne_none _) (List.cons_ne_nil _ _)

theorem succeeds_componentSlots (log : Log) (pairs : List (Variable × Condition)) (s : Supply) :
    (componentSlots log pairs).Succeeds s := by
  induction pairs generalizing log s with
  | nil => exact Build.succeeds_pure _ s
  | cons pair pairs ih =>
    refine (Build.succeeds_modifyGet _ s).bind fun log s₁ _ => ?_
    exact (ih log s₁).bind fun _ s₂ _ => Build.succeeds_pure _ s₂

theorem bounds_of_componentSlots {log full : Log} {pairs : List (Variable × Condition)}
    (h : (componentSlots log pairs).Yields s (full, slots) s') :
    slots.map (·.bound) = pairs.map (·.1) := by
  induction pairs generalizing log slots s s' with
  | nil =>
    obtain ⟨heq, -⟩ := Build.pure_yields.1 h
    cases heq
    rfl
  | cons pair pairs ih =>
    obtain ⟨grown, s₁, -, h⟩ := Build.bind_yields.1 h
    obtain ⟨⟨last, rest⟩, s₂, hrest, h⟩ := Build.bind_yields.1 h
    obtain ⟨heq, -⟩ := Build.pure_yields.1 h
    cases heq
    exact congrArg (pair.1 :: ·) (ih hrest)

theorem succeeds_keySlots (log : Log) (key : Option GroupKey) (count : Nat) (s : Supply) :
    (keySlots factory log key count).Succeeds s := by
  cases key with
  | none => exact Build.succeeds_pure _ s
  | some key =>
    rw [keySlots]
    by_cases single : count = 1
    · rw [if_pos single]
      exact Build.succeeds_pure _ s
    · rw [if_neg single]
      refine Build.Succeeds.bind ?_ fun pairs s₁ _ => succeeds_componentSlots log pairs s₁
      refine Build.succeeds_mapM (fun index s => ?_) _ s
      refine (Build.succeeds_modifyGet _ s).bind fun bound s₁ _ => ?_
      exact (succeeds_newStep _ s₁).bind fun _ s₂ _ => Build.succeeds_pure _ s₂

/-- There is a slot for each key, packed or not. -/
theorem length_of_keySlots {log full : Log} {key : Option GroupKey} {count : Nat}
    (h : (keySlots factory log key count).Yields s (full, slots) s')
    (keyed : key = none ↔ count = 0) : slots.length = count := by
  cases key with
  | none =>
    obtain ⟨heq, -⟩ := Build.pure_yields.1 h
    cases heq
    exact (keyed.1 rfl).symm
  | some key =>
    rw [keySlots] at h
    by_cases single : count = 1
    · rw [if_pos single] at h
      obtain ⟨heq, -⟩ := Build.pure_yields.1 h
      cases heq
      exact single.symm
    · rw [if_neg single] at h
      obtain ⟨pairs, s₁, hpairs, h⟩ := Build.bind_yields.1 h
      rw [← List.length_map (·.bound), bounds_of_componentSlots h, List.length_map,
        Build.length_of_mapM hpairs, List.length_range]

/-! ## Groupings -/

theorem succeeds_groupSlots (valid : request.validate = .ok ()) (s : Supply) :
    (e.groupSlots factory request).Succeeds s := by
  refine (Build.succeeds_check valid).bind fun _ s₁ _ => ?_
  refine (Build.succeeds_modifyGet _ s₁).bind fun combined s₂ _ => ?_
  refine (succeeds_sourceLog _ _ _ s₂).bind fun _ s₃ _ => ?_
  refine (succeeds_groupKey _ s₃).bind fun key s₄ _ => ?_
  refine Build.Succeeds.bind ?_ fun outputs s₅ _ => ?_
  · refine Build.succeeds_mapM (fun collector s => ?_) _ s₄
    exact (Build.succeeds_modifyGet _ s).bind fun _ s' _ => Build.succeeds_pure _ s'
  refine Build.Succeeds.bind ?_ fun group s₆ _ => ?_
  · exact (Build.succeeds_modifyGet _ s₅).bind fun _ s' _ => Build.succeeds_pure _ s'
  refine (Build.succeeds_modifyGet _ s₆).bind fun log s₇ _ => ?_
  exact (succeeds_keySlots _ _ _ s₇).bind fun _ s₈ _ => Build.succeeds_pure _ s₈

/-- A grouping has as many slots as its request has keys and collectors. -/
theorem length_of_groupSlots (h : (e.groupSlots factory request).Yields s slots s') :
    request.validate = .ok () ∧ slots.length = request.degree := by
  obtain ⟨_, s₁, hvalid, h⟩ := Build.bind_yields.1 h
  obtain ⟨combined, s₂, -, h⟩ := Build.bind_yields.1 h
  obtain ⟨⟨source, input⟩, s₃, -, h⟩ := Build.bind_yields.1 h
  obtain ⟨key, s₄, hkey, h⟩ := Build.bind_yields.1 h
  obtain ⟨outputs, s₅, houtputs, h⟩ := Build.bind_yields.1 h
  obtain ⟨group, s₆, -, h⟩ := Build.bind_yields.1 h
  obtain ⟨log, s₇, -, h⟩ := Build.bind_yields.1 h
  obtain ⟨⟨full, keySlots⟩, s₈, hkeySlots, h⟩ := Build.bind_yields.1 h
  obtain ⟨rfl, -⟩ := Build.pure_yields.1 h
  refine ⟨(Build.check_yields.1 hvalid).1, ?_⟩
  have keyed : key = none ↔ request.keys.length = 0 :=
    (isSome_of_groupKey hkey).trans List.length_eq_zero_iff.symm
  rw [List.length_append, List.length_map, length_of_keySlots hkeySlots keyed,
    Build.length_of_mapM houtputs, GroupRequest.degree]

theorem exists_of_groupSlots (h : (e.groupSlots factory request).Yields s slots s') :
    ∃ e', ofSlots slots = .ok e' := by
  obtain ⟨valid, length⟩ := length_of_groupSlots h
  obtain ⟨asked, room⟩ := GroupRequest.validate_eq_ok.1 valid
  refine exists_ofSlots_of_length (fun none => asked ?_) (length ▸ room)
  rw [← length, none, List.length_nil]

theorem succeeds_groupBy (valid : request.validate = .ok ()) (s : Supply) :
    (e.groupBy factory request).Succeeds s := by
  rw [groupBy_eq_groupSlots]
  refine (succeeds_groupSlots valid s).bind fun slots s₁ h => ?_
  obtain ⟨e', he'⟩ := exists_of_groupSlots h
  exact Build.succeeds_check he'

end Expression

/-! ## Calls -/

namespace Call

variable {n : Nat} {c : Call n} {factory : Factory} {es : Fin n → Expression} {error : PlanError}

/-- What a call checks of its arguments. -/
def checks (es : Fin n → Expression) : Call n → Except PlanError Unit
  | .join left right joiners => ((es left).joinable (es right) joiners).map fun _ => ()
  | .existence _ _ _ joiners => (Joiner.merge joiners).map fun _ => ()
  | .groupBy _ request => request.validate
  | _ => .ok ()

/-- How the slots are made of which the result is constructed, for calls where this can fail. -/
def slots? (factory : Factory) (es : Fin n → Expression) : Call n → Option (Build (List Slot))
  | .join left right joiners => some ((es left).joinSlots (es right) joiners)
  | .groupBy operand request => some ((es operand).groupSlots factory request)
  | _ => none

/-- Either the checks pass and the call succeeds, or they do not and nothing happens. -/
structure Atomic (c : Call n) (factory : Factory) (es : Fin n → Expression) (s : Supply) :
    Prop where
  /-- every error is one of the checks, and the supply is left as it was -/
  fails : ∀ error s', (c.build factory es).run.run s = (.error error, s') ↔
    c.checks es = .error error ∧ s' = s
  succeeds : c.checks es = .ok () → (c.build factory es).Succeeds s
  /-- the result is constructed in the end, and that never fails -/
  constructs : ∀ makeSlots, c.slots? factory es = some makeSlots →
    (c.build factory es = do
      let slots ← makeSlots
      check (Expression.ofSlots slots)) ∧
    ∀ slots s', makeSlots.Yields s slots s' → ∃ e, Expression.ofSlots slots = .ok e

theorem map_unit_eq_error {α : Type} {r : Except PlanError α} :
    r.map (fun _ => ()) = .error error ↔ r = .error error := by
  cases r with
  | error e => rw [Except.map, Except.error.injEq, Except.error.injEq]
  | ok a => exact iff_of_false (fun h => by cases h) (fun h => by cases h)

theorem map_unit_eq_ok {α : Type} {r : Except PlanError α} :
    r.map (fun _ => ()) = .ok () ↔ ∃ a, r = .ok a := by
  cases r with
  | error e => exact iff_of_false (fun h => by cases h) (fun ⟨_, h⟩ => by cases h)
  | ok a => exact iff_of_true rfl ⟨a, rfl⟩

/-- The checks come first. -/
theorem run_of_checks_error (h : c.checks es = .error error) (s : Supply) :
    (c.build factory es).run.run s = (.error error, s) := by
  cases c with
  | forEach type => cases h
  | filter operand predicate => cases h
  | map operand function => cases h
  | join left right joiners =>
    rw [build, Expression.join, Build.run_bind, map_unit_eq_error.1 h]
    rfl
  | existence operand quantifier type joiners =>
    exact Expression.checkExistence_of_error (map_unit_eq_error.1 h) _ _ _ _ _
  | groupBy operand request =>
    have invalid : request.validate = .error error := h
    rw [build, Expression.groupBy, Build.run_bind, invalid]
    rfl

theorem succeeds_of_checks (h : c.checks es = .ok ()) (s : Supply) :
    (c.build factory es).Succeeds s := by
  cases c with
  | forEach type => exact Expression.succeeds_forEach factory type s
  | filter operand predicate =>
    exact (Log.succeeds_appendSteps _ _ s).bind fun _ s₁ _ => Build.succeeds_pure _ s₁
  | map operand function =>
    refine (Build.succeeds_modifyGet _ s).bind fun bound s₁ _ => ?_
    refine (Build.succeeds_modifyGet _ s₁).bind fun combined s₂ _ => ?_
    exact (Log.succeeds_appendSteps _ _ s₂).bind fun _ s₃ _ => Build.succeeds_pure _ s₃
  | join left right joiners =>
    obtain ⟨rule, joinable⟩ := map_unit_eq_ok.1 h
    exact Expression.succeeds_join joinable s
  | existence operand quantifier type joiners =>
    obtain ⟨rule, merged⟩ := map_unit_eq_ok.1 h
    exact Expression.succeeds_checkExistence _ factory quantifier type merged s
  | groupBy operand request => exact Expression.succeeds_groupBy h s

theorem run_eq_error_iff {s s' : Supply} :
    (c.build factory es).run.run s = (.error error, s') ↔ c.checks es = .error error ∧ s' = s := by
  constructor
  · intro failed
    cases h : c.checks es with
    | error e =>
      rw [run_of_checks_error h] at failed
      cases failed
      exact ⟨rfl, rfl⟩
    | ok =>
      have succeeds : (c.build factory es).Succeeds s := succeeds_of_checks h s
      obtain ⟨e, s'', makes⟩ := succeeds
      cases makes.symm.trans failed
  · rintro ⟨h, rfl⟩
    exact run_of_checks_error h s'

/-- **A failed call leaves no trace.**  Whatever the expressions are, and whatever has been drawn
before: a call that fails does so for one of its checks and draws nothing. -/
theorem atomic_build (c : Call n) (factory : Factory) (es : Fin n → Expression) (s : Supply) :
    c.Atomic factory es s := by
  refine ⟨fun error s' => run_eq_error_iff, fun passed => succeeds_of_checks passed s,
    fun makeSlots makes => ?_⟩
  cases c with
  | join left right joiners =>
    cases makes
    exact ⟨Expression.join_eq _ _ _, fun slots s' => Expression.exists_of_joinSlots⟩
  | groupBy operand request =>
    cases makes
    exact ⟨Expression.groupBy_eq_groupSlots _ _ _, fun slots s' => Expression.exists_of_groupSlots⟩
  | forEach type => cases makes
  | filter operand predicate => cases makes
  | existence operand quantifier type joiners => cases makes
  | map operand function => cases makes

/-- Five outputs are too many, and nothing is drawn for them. -/
example (e : Expression) (factory : Factory) (s : Supply) :
    (e.groupBy factory ⟨[valueAt 0, valueAt 1], [.count, .count, .count]⟩).run.run s =
      (.error (.degreeOverflow .groupBy 5), s) := rfl

end Call

end MatchAlgebra
