import MatchAlgebra.Constraints.Set
import MatchAlgebra.Proofs.Programs

/-!
# Compiling side by side

The constraints of a set can be compiled one after the other or side by side.  Side by side they
draw from the same counters in any order, so each gets a scope of its own and ids that no other
gets.  In turn they get such numbers too, and which ones they get does not show: all runs fail with
the error of the first constraint that fails, or all give plans that can take each other's place:

    set.Compiles settings r  →  set.Compiles settings' r'  →
      set.Settles settings r ∧ SameOutcome (Forall₂ Plan.Interchangeable) r r'
                                                      (ConstraintSet.compile_indistinguishable)
-/

namespace MatchAlgebra

/-! ## All or the first error -/

section
variable {α β : Type} {rs : List (Except PlanError α)} {rs' : List (Except PlanError β)}

theorem allOrFirstError_outcome {R : α → β → Prop} (h : List.Forall₂ (SameOutcome R) rs rs') :
    SameOutcome (List.Forall₂ R) (allOrFirstError rs) (allOrFirstError rs') := by
  induction h with
  | nil => exact .ok .nil
  | cons first _ ih =>
    cases first with
    | error e => exact .error e
    | ok first => exact ih.map fun _ _ rest => .cons first rest

theorem eq_map_of_allOrFirstError {as : List α} (h : allOrFirstError rs = .ok as) :
    rs = as.map .ok := by
  induction rs generalizing as with
  | nil =>
    cases h
    rfl
  | cons r rs ih =>
    cases r with
    | error e => cases h
    | ok a =>
      rw [allOrFirstError] at h
      cases hrest : allOrFirstError rs with
      | error e =>
        rw [hrest] at h
        cases h
      | ok rest =>
        rw [hrest] at h
        cases h
        rw [ih hrest, List.map_cons]

theorem exists_of_allOrFirstError {e : PlanError} (h : allOrFirstError rs = .error e) :
    ∃ (before : List α) (after : List (Except PlanError α)),
      rs = before.map .ok ++ .error e :: after := by
  induction rs with
  | nil => cases h
  | cons r rs ih =>
    cases r with
    | error e' =>
      cases h
      exact ⟨[], rs, rfl⟩
    | ok a =>
      rw [allOrFirstError] at h
      cases hrest : allOrFirstError rs with
      | error e' =>
        rw [hrest] at h
        cases h
        obtain ⟨before, after, heq⟩ := ih hrest
        exact ⟨a :: before, after, by rw [heq, List.map_cons, List.cons_append]⟩
      | ok rest =>
        rw [hrest] at h
        cases h

end

/-! ## One constraint -/

namespace Constraint

/-- The builder is a program of the algebra over the factory that it is given. -/
def Algebraic (c : Constraint) : Prop :=
  ∃ p : Program 0, ∀ factory, c.build factory = p.build factory Fin.elim0

/-- What the builder makes with a factory of its own. -/
def built (c : Constraint) (s : Supply) : Except PlanError Plan :=
  ((newFactory >>= c.build).run.run s).1

/-- The builder fails, or its plan does not pass the verification that is wanted. -/
def FailsWith (settings : CompilerSettings) (c : Constraint) (e : PlanError) : Prop :=
  ∀ s : Supply, s.Unused → c.built s = .error e ∨
    ∃ plan, c.built s = .ok plan ∧ settings.verifyPlans = true ∧ plan.verify = .error e

def Succeeds (settings : CompilerSettings) (c : Constraint) : Prop :=
  ∀ s : Supply, s.Unused → ∃ plan, c.built s = .ok plan ∧
    (settings.verifyPlans = true → plan.verify = .ok ())

/-- The result of a compilation and the supply that it leaves. -/
def run (c : Constraint) (settings : CompilerSettings) (s : Supply) :
    Except PlanError Plan × Supply :=
  (c.compile settings).run.run s

/-- The plan under the name of the constraint, if it passes the verification that is wanted. -/
def accept (settings : CompilerSettings) (c : Constraint) (plan : Plan) : Except PlanError Plan :=
  (if settings.verifyPlans then plan.verify else .ok ()).map fun _ =>
    { plan with name := some c.name }

theorem compile_eq (settings : CompilerSettings) (c : Constraint) :
    c.compile settings =
      (newFactory >>= c.build) >>= fun plan => check (c.accept settings plan) := by
  rw [compile, bind_assoc]
  congr 1
  funext factory
  congr 1
  funext plan
  rw [accept]
  cases settings.verifyPlans with
  | false => rfl
  | true =>
    show (check plan.verify >>= _) = check (plan.verify.map _)
    cases plan.verify <;> rfl

/-- A constraint is compiled as its builder does it, and then its plan is accepted or not. -/
theorem run_eq (settings : CompilerSettings) (c : Constraint) (s : Supply) :
    c.run settings s = match (newFactory >>= c.build).run.run s with
      | (.ok plan, s') => (c.accept settings plan, s')
      | (.error e, s') => (.error e, s') := by
  rw [run, compile_eq, Build.run_bind]
  generalize (newFactory >>= c.build).run.run s = out
  obtain ⟨r, s'⟩ := out
  cases r <;> rfl

theorem accept_of_verified (settings : CompilerSettings) (c : Constraint) {plan : Plan}
    (h : plan.verify = .ok ()) :
    c.accept settings plan = .ok { plan with name := some c.name } := by
  rw [accept, h]
  cases settings.verifyPlans <;> rfl

/-- The plan is what the builder makes with a factory of its own, under the name of the
constraint. -/
def Makes (c : Constraint) (plan : Plan) : Prop :=
  ∃ s : Supply, s.Unused ∧ ∃ made, c.built s = .ok made ∧ plan = { made with name := some c.name }

/-- A constraint that compiles gives what its builder makes. -/
theorem makes_of_run {settings : CompilerSettings} {c : Constraint} {s : Supply}
    (unused : s.Unused) {plan : Plan} (h : (c.run settings s).1 = .ok plan) : c.Makes plan := by
  refine ⟨s, unused, ?_⟩
  rw [run_eq] at h
  rw [built]
  generalize (newFactory >>= c.build).run.run s = out at h ⊢
  obtain ⟨r, s'⟩ := out
  cases r with
  | error e => cases h
  | ok made =>
    refine ⟨made, rfl, ?_⟩
    have accepted : c.accept settings made = .ok plan := h
    rw [accept] at accepted
    generalize (if settings.verifyPlans then made.verify else .ok ()) = verdict at accepted
    cases verdict with
    | error e => cases accepted
    | ok _ =>
      cases accepted
      rfl

/-- What a constraint comes to on a supply, told by what its builder comes to on plain numbers. -/
structure Comes (settings : CompilerSettings) (c : Constraint) (plain : Except PlanError Plan)
    (s : Supply) : Prop where
  outcome : SameOutcome (Plan.Issued s (c.run settings s).2)
    (plain.map fun plan => { plan with name := some c.name }) (c.run settings s).1
  built : SameOutcome (fun _ plan => plan.verify = .ok ()) plain (c.built s)
  spent : s.Spent (c.run settings s).2

variable {c : Constraint}

theorem Algebraic.exists_plain (h : c.Algebraic) :
    ∃ plain, ∀ settings (s : Supply), s.Unused → c.Comes settings plain s := by
  obtain ⟨p, hp⟩ := h
  refine ⟨p.outcome, fun settings s unused => ?_⟩
  have made : (newFactory >>= c.build).run.run s = (p.build ⟨s.nextScope⟩ Fin.elim0).run.run
      { s with nextScope := s.nextScope + 1 } := by
    rw [← hp]
    rfl
  obtain ⟨outcome, spent⟩ := p.run_unused unused
  have compiled := c.run_eq settings s
  have built : c.built s = ((newFactory >>= c.build).run.run s).1 := rfl
  rw [made] at compiled built
  generalize (p.build ⟨s.nextScope⟩ Fin.elim0).run.run
    { s with nextScope := s.nextScope + 1 } = out at outcome spent compiled built
  generalize p.outcome = plain at outcome
  obtain ⟨r, s'⟩ := out
  cases outcome with
  | error e =>
    refine ⟨?_, ?_, ?_⟩
    · rw [compiled]
      exact .error e
    · rw [built]
      exact .error e
    · rw [compiled]
      exact spent
  | @ok plan plan' issued =>
    have accepted : c.run settings s = (.ok { plan' with name := some c.name }, s') :=
      compiled.trans (congrArg (·, s') (c.accept_of_verified settings issued.verified))
    refine ⟨?_, ?_, ?_⟩
    · rw [accepted]
      refine .ok ⟨?_, issued.verified, issued.identified, issued.drawn⟩
      rw [issued.renamed]
      rfl
    · rw [built]
      exact .ok issued.verified
    · rw [accepted]
      exact spent

/-- The id is drawn while the constraint is compiled. -/
def Draws (settings : CompilerSettings) (c : Constraint) (s : Supply) (id : Nat) : Prop :=
  s.Drew (c.run settings s).2 id

namespace Algebraic

variable {settings : CompilerSettings} {s : Supply} (h : c.Algebraic) (unused : s.Unused)
include h unused

theorem spent : s.Spent (c.run settings s).2 := by
  obtain ⟨plain, comes⟩ := h.exists_plain
  exact (comes settings s unused).spent

/-- Two compilations fail with one error or give plans that can take each other's place. -/
theorem run_outcome {s' : Supply} (unused' : s'.Unused) (settings settings' : CompilerSettings) :
    SameOutcome Plan.Interchangeable (c.run settings s).1 (c.run settings' s').1 := by
  obtain ⟨plain, comes⟩ := h.exists_plain
  have outcome := (comes settings s unused).outcome
  have outcome' := (comes settings' s' unused').outcome
  generalize plain.map _ = named at outcome outcome'
  generalize c.run settings s = out at outcome ⊢
  generalize c.run settings' s' = out' at outcome' ⊢
  obtain ⟨r, after⟩ := out
  obtain ⟨r', after'⟩ := out'
  cases outcome with
  | error e =>
    cases outcome' with
    | error e => exact .error e
  | @ok named plan issued =>
    cases outcome' with
    | ok issued' =>
      refine .ok ?_
      rw [issued.renamed, issued'.renamed]
      exact Plan.interchangeable_rename _ _ _

theorem succeeds {plan : Plan} (made : (c.run settings s).1 = .ok plan) :
    c.Succeeds settings ∧ plan.name = some c.name ∧ Condition.Identified plan.conditions ∧
      ∀ d ∈ Condition.partsAll plan.conditions, c.Draws settings s d.id := by
  obtain ⟨plain, comes⟩ := h.exists_plain
  have outcome := (comes settings s unused).outcome
  rw [made] at outcome
  cases plain with
  | error e => cases outcome
  | ok plain =>
    cases outcome with
    | ok issued =>
      refine ⟨fun s' unused' => ?_, ?_, issued.identified, issued.drawn⟩
      · have built := (comes settings s' unused').built
        generalize c.built s' = r at built
        cases built with
        | ok verified => exact ⟨_, rfl, fun _ => verified⟩
      · rw [issued.renamed]
        rfl

theorem failsWith {e : PlanError} (failed : (c.run settings s).1 = .error e) :
    c.FailsWith settings e := by
  obtain ⟨plain, comes⟩ := h.exists_plain
  have outcome := (comes settings s unused).outcome
  rw [failed] at outcome
  cases plain with
  | ok plain => cases outcome
  | error e =>
    cases outcome
    intro s' unused'
    have built := (comes settings s' unused').built
    generalize c.built s' = r at built
    cases built
    exact .inl rfl

end Algebraic

end Constraint

/-! ## Sets of constraints -/

namespace ConstraintSet

/-- The builds each have a scope of their own, and no id is drawn by two of them. -/
structure Apart (settings : CompilerSettings) (builds : List (Constraint × Supply)) : Prop where
  unused : ∀ b ∈ builds, b.2.Unused
  scopes : builds.Pairwise fun a b => a.2.nextScope ≠ b.2.nextScope
  ids : builds.Pairwise fun a b =>
    ∀ id, a.1.Draws settings a.2 id → ¬ b.1.Draws settings b.2 id

/-- What compiling the set can give, in turn or side by side as the settings say. -/
inductive Compiles (settings : CompilerSettings) (set : ConstraintSet) :
    Except PlanError (List Plan) → Prop
  | inTurn {supply : Supply} (serial : settings.parallel = false) (unused : supply.Unused) :
      Compiles settings set (set.compile settings supply)
  | sideBySide {builds : List (Constraint × Supply)} (parallel : settings.parallel = true)
      (every : builds.map (·.1) = set) (apart : Apart settings builds) :
      Compiles settings set (compileSeparately settings builds)

/-- The error of the first constraint that fails, or else a plan for each, which is what its
builder makes, under its name.  The plans share no condition, so that one session can keep the
groups of all of them. -/
inductive Settles (settings : CompilerSettings) (set : ConstraintSet) :
    Except PlanError (List Plan) → Prop
  | error {before after : ConstraintSet} {c : Constraint} {e : PlanError}
      (declared : set = before ++ c :: after) (earlier : ∀ b ∈ before, b.Succeeds settings)
      (fails : c.FailsWith settings e) : Settles settings set (.error e)
  | ok {plans : List Plan} (succeed : ∀ c ∈ set, c.Succeeds settings)
      (made : List.Forall₂ Constraint.Makes set plans)
      (names : plans.map (·.name) = set.map (some ·.name))
      (identified : Condition.Identified (plans.flatMap (·.conditions))) :
      Settles settings set (.ok plans)

variable {settings settings' : CompilerSettings} {set : ConstraintSet}

/-- Compiling in turn is one way of compiling side by side: each build starts where the one before
it has stopped. -/
theorem exists_builds (settings : CompilerSettings) (algebraic : ∀ c ∈ set, c.Algebraic)
    {supply : Supply} (unused : supply.Unused) : ∃ builds : List (Constraint × Supply),
      builds.map (·.1) = set ∧ Apart settings builds ∧
      (∀ b ∈ builds, b.2.idOf = supply.idOf ∧ supply.drawn ≤ b.2.drawn ∧
        supply.nextScope ≤ b.2.nextScope) ∧
      ((set.results settings).run supply).1 = builds.map fun b => (b.1.run settings b.2).1 := by
  induction set generalizing supply with
  | nil =>
    exact ⟨[], rfl, ⟨List.forall_mem_nil _, .nil, .nil⟩, List.forall_mem_nil _, rfl⟩
  | cons c set ih =>
    obtain ⟨hc, hset⟩ := List.forall_mem_cons.1 algebraic
    have spent : supply.Spent (c.run settings supply).2 := hc.spent unused
    obtain ⟨builds, every, apart, later, run⟩ := ih hset spent.unused
    refine ⟨(c, supply) :: builds, by rw [List.map_cons, every], ⟨?_, ?_, ?_⟩, ?_, ?_⟩
    · exact List.forall_mem_cons.2 ⟨unused, apart.unused⟩
    · refine .cons (fun b hb => ?_) apart.scopes
      have above := (later b hb).2.2
      rw [spent.nextScope] at above
      exact Nat.ne_of_lt above
    · -- the others list the same ids from where the first has stopped
      refine .cons (fun b hb id hid hid' => ?_) apart.ids
      obtain ⟨idOf, drawn, -⟩ := later b hb
      obtain ⟨k, -, hk, rfl⟩ := hid
      have hk : k < (c.run settings supply).2.drawn := hk
      obtain ⟨k', hk', -, same⟩ := hid'
      have heq : k = k' := by
        refine supply.idOf_injective k k' ?_
        rw [same, idOf, spent.idOf]
      omega
    · refine List.forall_mem_cons.2 ⟨⟨rfl, Nat.le_refl _, Nat.le_refl _⟩, fun b hb => ?_⟩
      obtain ⟨idOf, drawn, scope⟩ := later b hb
      have made := spent.nextScope
      exact ⟨idOf.trans spent.idOf, Nat.le_trans spent.drawn drawn, by omega⟩
    · show (c.run settings supply).1 :: ((results settings set).run (c.run settings supply).2).1 = _
      rw [run, List.map_cons]

theorem compile_eq_separately (algebraic : ∀ c ∈ set, c.Algebraic) {supply : Supply}
    (unused : supply.Unused) : ∃ builds, builds.map (·.1) = set ∧ Apart settings builds ∧
      set.compile settings supply = compileSeparately settings builds := by
  obtain ⟨builds, every, apart, -, run⟩ := exists_builds settings algebraic unused
  exact ⟨builds, every, apart, congrArg allOrFirstError run⟩

/-- Whatever a set is compiled to, it can be compiled to side by side. -/
theorem Compiles.exists_apart {r : Except PlanError (List Plan)} (h : Compiles settings set r)
    (algebraic : ∀ c ∈ set, c.Algebraic) : ∃ builds, builds.map (·.1) = set ∧
      Apart settings builds ∧ r = compileSeparately settings builds := by
  cases h with
  | inTurn _ unused => exact compile_eq_separately algebraic unused
  | @sideBySide builds _ every apart => exact ⟨builds, every, apart, rfl⟩

section
variable {builds : List (Constraint × Supply)}
  (algebraic : ∀ c ∈ builds.map (·.1), c.Algebraic)
include algebraic

/-- The plans that builds apart from each other give share no condition. -/
theorem identified_of_apart (apart : Apart settings builds) {plans : List Plan}
    (made : List.Forall₂ (fun b plan => (b.1.run settings b.2).1 = .ok plan) builds plans) :
    Condition.Identified (plans.flatMap (·.conditions)) ∧
      ∀ d ∈ Condition.partsAll (plans.flatMap (·.conditions)),
        ∃ b ∈ builds, b.1.Draws settings b.2 d.id := by
  obtain ⟨unused, -, ids⟩ := apart
  induction made with
  | nil => exact ⟨fun c hc => absurd hc List.not_mem_nil, fun d hd => absurd hd List.not_mem_nil⟩
  | @cons b plan builds plans first _ ih =>
    rw [List.map_cons, List.forall_mem_cons] at algebraic
    rw [List.forall_mem_cons] at unused
    rw [List.pairwise_cons] at ids
    obtain ⟨-, -, identified, drawn⟩ := algebraic.1.succeeds unused.1 first
    obtain ⟨identified', drawn'⟩ := ih algebraic.2 unused.2 ids.2
    rw [List.flatMap_cons]
    refine ⟨identified.append identified' fun c hc d hd same => ?_, fun d hd => ?_⟩
    · obtain ⟨b', hb', hd'⟩ := drawn' d hd
      exact ids.1 b' hb' c.id (drawn c hc) (same ▸ hd')
    · rw [Condition.partsAll_append, List.mem_append] at hd
      rcases hd with hd | hd
      · exact ⟨b, List.mem_cons_self, drawn d hd⟩
      · obtain ⟨b', hb', hd'⟩ := drawn' d hd
        exact ⟨b', List.mem_cons_of_mem _ hb', hd'⟩

theorem settles_of_apart (apart : Apart settings builds) :
    Settles settings (builds.map (·.1)) (compileSeparately settings builds) := by
  have algebraic_of : ∀ b ∈ builds, b.1.Algebraic := fun b hb =>
    algebraic b.1 (List.mem_map_of_mem hb)
  cases hr : compileSeparately settings builds with
  | error e =>
    obtain ⟨before, after, split⟩ := exists_of_allOrFirstError hr
    obtain ⟨first, rest, rfl, hfirst, hrest⟩ := List.map_eq_append_iff.1 split
    obtain ⟨b, last, rfl, hb, -⟩ := List.map_eq_cons_iff.1 hrest
    rw [List.map_append, List.map_cons]
    refine .error rfl (fun c hc => ?_) ?_
    · obtain ⟨b', hb', rfl⟩ := List.mem_map.1 hc
      have known := List.mem_append_left (b :: last) hb'
      have ran : (b'.1.run settings b'.2).1 ∈ before.map Except.ok := by
        rw [← hfirst]
        exact List.mem_map_of_mem hb'
      obtain ⟨plan, -, made⟩ := List.mem_map.1 ran
      exact ((algebraic_of b' known).succeeds (apart.unused b' known) made.symm).1
    · have known := List.mem_append_right first (List.mem_cons_self (a := b) (l := last))
      exact (algebraic_of b known).failsWith (apart.unused b known) hb
  | ok plans =>
    have made : List.Forall₂ (fun b plan => (b.1.run settings b.2).1 = .ok plan) builds plans :=
      map_eq_map_iff.1 (eq_map_of_allOrFirstError hr)
    have succeeded := forall₂_imp_of_mem made fun b hb plan run =>
      (algebraic_of b hb).succeeds (apart.unused b hb) run
    refine .ok (fun c hc => ?_) ?_ ?_ (identified_of_apart algebraic apart made).1
    · obtain ⟨b, hb, rfl⟩ := List.mem_map.1 hc
      obtain ⟨plan, -, succeeds, -⟩ := exists_related_of_mem succeeded.flip hb
      exact succeeds
    · rw [List.forall₂_map_left_iff]
      exact forall₂_imp_of_mem made fun b hb plan run =>
        Constraint.makes_of_run (apart.unused b hb) run
    · rw [List.map_map]
      exact (map_eq_map_iff.2 (succeeded.imp fun _ _ h => h.2.1.symm)).symm

end

/-- The same constraints come to the same on whatever supplies. -/
theorem outcome_of_builds {builds builds' : List (Constraint × Supply)}
    (algebraic : ∀ c ∈ builds.map (·.1), c.Algebraic)
    (same : builds.map (·.1) = builds'.map (·.1)) (unused : ∀ b ∈ builds, b.2.Unused)
    (unused' : ∀ b ∈ builds', b.2.Unused) :
    SameOutcome (List.Forall₂ Plan.Interchangeable) (compileSeparately settings builds)
      (compileSeparately settings' builds') := by
  refine allOrFirstError_outcome ?_
  rw [List.forall₂_map_left_iff, List.forall₂_map_right_iff]
  obtain ⟨length, together⟩ := List.forall₂_iff_zip.1 (map_eq_map_iff.1 same)
  refine List.forall₂_iff_zip.2 ⟨length, fun {b b'} hmem => ?_⟩
  obtain ⟨hb, hb'⟩ := List.of_mem_zip hmem
  have heq := together hmem
  obtain ⟨c, s⟩ := b
  obtain ⟨c', s'⟩ := b'
  obtain rfl : c = c' := heq
  exact (algebraic c (List.mem_map_of_mem hb)).run_outcome (unused _ hb) (unused' _ hb') settings
    settings'

/-- **Compiling side by side cannot be told from compiling in turn.** -/
theorem compile_indistinguishable (algebraic : ∀ c ∈ set, c.Algebraic)
    {r r' : Except PlanError (List Plan)} (h : Compiles settings set r)
    (h' : Compiles settings' set r') :
    Settles settings set r ∧ SameOutcome (List.Forall₂ Plan.Interchangeable) r r' := by
  obtain ⟨builds, rfl, apart, rfl⟩ := h.exists_apart algebraic
  obtain ⟨builds', same, apart', rfl⟩ := h'.exists_apart algebraic
  exact ⟨settles_of_apart algebraic apart,
    outcome_of_builds algebraic same.symm apart.unused apart'.unused⟩

/-- A count and a pattern that was first to be joined with itself, in turn and with ids that
alternate. -/
theorem compile_indistinguishable_alternating :
    let type : FactType := ⟨"A"⟩
    let counted : Program 0 := .call (.forEach type) (.call (.groupBy 0 ⟨[], [⟨.count, valueAt 0⟩]⟩)
      (.terminate 0 .unit) .fail) .fail
    let fallback : PlanError → Program 1 := fun _ =>
      .call (.filter 0 fun _ => true) (.terminate 0 .unit) .fail
    let joined : Program 0 := .call (.forEach type) (.call (.join 0 0 []) (.terminate 0 .unit)
      fallback) .fail
    let counts : Constraint := ⟨"counts", fun factory => counted.build factory Fin.elim0⟩
    let facts : Constraint := ⟨"facts", fun factory => joined.build factory Fin.elim0⟩
    let set : ConstraintSet := [counts, facts]
    let serial : CompilerSettings := { parallel := false }
    let parallel : CompilerSettings := {}
    let even : Supply :=
      { nextScope := 2, idOf := fun k => 2 * k + 2, idOf_injective := by intro m n h; omega }
    let odd : Supply := { idOf := fun k => 2 * k + 1, idOf_injective := by intro m n h; omega }
    let builds : List (Constraint × Supply) := [(counts, even), (facts, odd)]
    let ids : List Plan → List (List Nat) := fun plans =>
      plans.map fun plan => plan.conditions.map Condition.id
    (∀ c ∈ set, c.Algebraic) ∧ Compiles serial set (set.compile serial {}) ∧
      Compiles parallel set (compileSeparately parallel builds) ∧
      (set.compile serial {}).toOption.map ids = some [[3], [4, 5]] ∧
      (compileSeparately parallel builds).toOption.map ids = some [[6], [1, 3]] ∧
      Settles serial set (set.compile serial {}) ∧
      SameOutcome (List.Forall₂ Plan.Interchangeable) (set.compile serial {})
        (compileSeparately parallel builds) := by
  intro type counted fallback joined counts facts set serial parallel even odd builds ids
  have algebraic : ∀ c ∈ set, c.Algebraic := by
    intro c hc
    simp only [set, List.mem_cons, List.not_mem_nil, or_false] at hc
    rcases hc with rfl | rfl
    · exact ⟨counted, fun _ => rfl⟩
    · exact ⟨joined, fun _ => rfl⟩
  have apart : Apart parallel builds := by
    refine ⟨fun b hb => ?_, ?_, ?_⟩
    · simp only [builds, List.mem_cons, List.not_mem_nil, or_false] at hb
      rcases hb with rfl | rfl
      · exact fun _ _ => rfl
      · exact fun _ _ => rfl
    · simp [builds, even, odd]
    · refine List.pairwise_pair.2 fun id hid hid' => ?_
      obtain ⟨k, -, -, rfl⟩ := hid
      obtain ⟨k', -, -, same⟩ := hid'
      have same : 2 * k + 2 = 2 * k' + 1 := same
      omega
  have in_turn : Compiles serial set (set.compile serial {}) := .inTurn rfl fun _ _ => rfl
  have side_by_side : Compiles parallel set (compileSeparately parallel builds) :=
    .sideBySide rfl rfl apart
  have ids_in_turn : (set.compile serial {}).toOption.map ids = some [[3], [4, 5]] := by
    decide +kernel
  have ids_side_by_side : (compileSeparately parallel builds).toOption.map ids =
      some [[6], [1, 3]] := by
    decide +kernel
  exact ⟨algebraic, in_turn, side_by_side, ids_in_turn, ids_side_by_side,
    compile_indistinguishable algebraic in_turn side_by_side⟩

end ConstraintSet

end MatchAlgebra
