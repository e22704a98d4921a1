import MatchAlgebra.Proofs.Congruence

/-!
# Rows up to spelling

The sense of a row is the row with the spelling of its values forgotten.  Steps whose functions
respect equality cannot tell rows of the same sense apart:

    rows.map sense = others.map sense  →
      (s.apply facts limit rows).map senses = (s.apply facts limit others).map senses

as is the case for everything else that evaluation does to rows (`Step.apply_congr`).  Errors are
part of the equation: where one side fails the other fails alike.
-/

namespace MatchAlgebra

/-! ## Results under a view -/

section
variable {ε α β γ δ : Type}

theorem map_bind_congr {x y : Except ε α} {f g : α → Except ε β} {p : α → γ} {q : β → δ}
    (h : x.map p = y.map p) (hfg : ∀ a b, p a = p b → (f a).map q = (g b).map q) :
    (x >>= f).map q = (y >>= g).map q := by
  cases x with
  | error e =>
    cases y with
    | error e' =>
      cases h
      rfl
    | ok b => cases h
  | ok a =>
    cases y with
    | error e' => cases h
    | ok b => exact hfg a b (Except.ok.inj h)

theorem map_pure_congr {a b : α} {view : α → γ} (h : view a = view b) :
    (pure a : Except ε α).map view = (pure b : Except ε α).map view := congrArg Except.ok h

/-- Lists that look alike have the same image under functions that see no more. -/
theorem map_eq_map_of_view {as : List α} {bs : List β} {view : α → γ} {view' : β → γ}
    (h : as.map view = bs.map view') {f : α → δ} {g : β → δ}
    (hfg : ∀ a b, view a = view' b → f a = g b) : as.map f = bs.map g := by
  induction as generalizing bs with
  | nil =>
    rw [List.map_nil, eq_comm, List.map_eq_nil_iff] at h
    rw [h]
    rfl
  | cons a as ih =>
    cases bs with
    | nil => cases h
    | cons b bs =>
      obtain ⟨hab, hrest⟩ := List.cons.inj h
      rw [List.map_cons, List.map_cons, hfg a b hab, ih hrest]

theorem bind_eq_ok {x : Except ε α} {f : α → Except ε β} {b : β} :
    (x >>= f) = .ok b ↔ ∃ a, x = .ok a ∧ f a = .ok b := by
  cases x with
  | ok a => exact ⟨fun h => ⟨a, rfl, h⟩, fun ⟨_, ha, h⟩ => by cases ha; exact h⟩
  | error e => exact ⟨(fun h => by cases h), fun ⟨_, ha, _⟩ => by cases ha⟩

/-- A function is applied to the elements of a list in turn; the first error ends it. -/
structure InTurn (f : α → Except ε β) (all : List α → Except ε (List β)) : Prop where
  nil : all [] = pure []
  cons : ∀ a as, all (a :: as) = f a >>= fun b => all as >>= fun bs => pure (b :: bs)

namespace InTurn

variable {f : α → Except ε β} {all : List α → Except ε (List β)} (h : InTurn f all)
include h

theorem eq_ok_iff {as : List α} {bs : List β} :
    all as = .ok bs ↔ List.Forall₂ (fun a b => f a = .ok b) as bs := by
  induction as generalizing bs with
  | nil =>
    rw [h.nil, List.forall₂_nil_left_iff]
    exact ⟨fun heq => (Except.ok.inj heq).symm, fun heq => heq ▸ rfl⟩
  | cons a as ih =>
    rw [h.cons, List.forall₂_cons_left_iff]
    constructor
    · intro hall
      obtain ⟨b, hb, hall⟩ := bind_eq_ok.1 hall
      obtain ⟨bs, hbs, hall⟩ := bind_eq_ok.1 hall
      cases hall
      exact ⟨b, bs, hb, ih.1 hbs, rfl⟩
    · rintro ⟨b, bs, hb, hbs, rfl⟩
      rw [hb, ih.2 hbs]
      rfl

/-- Functions that see no more than the view give results that look alike. -/
theorem congr {f' : γ → Except ε β} {all' : List γ → Except ε (List β)} (h' : InTurn f' all')
    {ζ : Type} {view : α → δ} {view' : γ → δ} {p : β → ζ} {as : List α} {cs : List γ}
    (same : as.map view = cs.map view')
    (hf : ∀ a c, view a = view' c → (f a).map p = (f' c).map p) :
    (all as).map (·.map p) = (all' cs).map (·.map p) := by
  induction as generalizing cs with
  | nil =>
    rw [List.map_nil, eq_comm, List.map_eq_nil_iff] at same
    rw [same, h.nil, h'.nil]
  | cons a as ih =>
    cases cs with
    | nil => cases same
    | cons c cs =>
      obtain ⟨first, rest⟩ := List.cons.inj same
      rw [h.cons, h'.cons]
      exact map_bind_congr (hf a c first) fun b b' hb =>
        map_bind_congr (ih rest) fun bs bs' hbs => map_pure_congr (congrArg₂ List.cons hb hbs)

/-- A function of what is seen of the elements gives what is seen of the results. -/
theorem map_eq {f' : γ → Except ε δ} {all' : List γ → Except ε (List δ)} (h' : InTurn f' all')
    {view : α → γ} {p : β → δ} (hf : ∀ a, f' (view a) = (f a).map p) (as : List α) :
    all' (as.map view) = (all as).map (·.map p) := by
  induction as with
  | nil =>
    rw [List.map_nil, h.nil, h'.nil]
    rfl
  | cons a as ih =>
    rw [List.map_cons, h.cons, h'.cons, hf, ih]
    cases f a with
    | error e => rfl
    | ok b => cases all as <;> rfl

/-- A function of what is seen of the elements gives the same results. -/
theorem comp_eq {f' : γ → Except ε β} {all' : List γ → Except ε (List β)} (h' : InTurn f' all')
    {view : α → γ} (hf : ∀ a, f' (view a) = f a) (as : List α) :
    all' (as.map view) = all as := by
  have unseen : ∀ a, f' (view a) = (f a).map id := fun a => by
    rw [hf, Except.map_id, id]
  have seen := h.map_eq h' unseen as
  rwa [List.map_id_fun, Except.map_id] at seen

/-- Functions that are equal on the elements give equal results. -/
theorem ext {g : α → Except ε β} {all' : List α → Except ε (List β)} (h' : InTurn g all')
    {as : List α} (same : ∀ a ∈ as, g a = f a) : all' as = all as := by
  induction as with
  | nil => rw [h.nil, h'.nil]
  | cons a as ih =>
    obtain ⟨first, rest⟩ := List.forall_mem_cons.1 same
    rw [h.cons, h'.cons, first, ih rest]

theorem exists_ok {as : List α} (succeeds : ∀ a ∈ as, ∃ b, f a = .ok b) :
    ∃ bs, all as = .ok bs := by
  induction as with
  | nil => exact ⟨[], h.nil⟩
  | cons a as ih =>
    obtain ⟨⟨b, hb⟩, rest⟩ := List.forall_mem_cons.1 succeeds
    obtain ⟨bs, hbs⟩ := ih rest
    exact ⟨b :: bs, by rw [h.cons, hb, hbs]; rfl⟩

end InTurn

theorem lookup_map_values {κ : Type} [BEq κ] (l : List (κ × α)) (f : α → β) (k : κ) :
    (l.map fun b => (b.1, f b.2)).lookup k = (l.lookup k).map f := by
  induction l with
  | nil => rfl
  | cons b l ih =>
    rw [List.map_cons, List.lookup_cons, List.lookup_cons, ih]
    split <;> rfl

end

/-! ## Reading and binding -/

namespace Row

def sense (row : Row) : List (VariableId × Sense) × List Nat :=
  (row.values.map fun b => (b.1, b.2.sense), row.facts)

/-- The senses of rows in order. -/
def senses (rows : List Row) : List (List (VariableId × Sense) × List Nat) := rows.map sense

theorem sense_bind (row : Row) (v : Variable) (a : Value) :
    (row.bind v a).sense = ((v.id, a.sense) :: row.sense.1, row.sense.2) := rfl

theorem sense_merge (row other : Row) :
    (row.merge other).sense =
      (other.sense.1 ++ row.sense.1, row.sense.2 ++ other.sense.2) := by
  rw [merge, sense, List.map_append]
  rfl

theorem inTurn_read (row : Row) : InTurn row.get row.read := ⟨rfl, fun _ _ => rfl⟩

theorem inTurn_change (f : Row → Except SessionError Row) : InTurn f (change f) :=
  ⟨rfl, fun _ _ => rfl⟩

/-- What reading looks at are the variables that are read. -/
theorem read_eq_of_get {row other : Row} {vs : List Variable}
    (same : ∀ v ∈ vs, row.get v = other.get v) : row.read vs = other.read vs :=
  other.inTurn_read.ext row.inTurn_read same

theorem read_eq_ok_iff {row : Row} {vs : List Variable} {xs : List Value} :
    row.read vs = .ok xs ↔ List.Forall₂ (fun v x => row.get v = .ok x) vs xs :=
  row.inTurn_read.eq_ok_iff

variable {row other : Row} (h : row.sense = other.sense)
include h

theorem get_congr (v : Variable) : (row.get v).map Value.sense = (other.get v).map Value.sense := by
  have same : (row.values.lookup v.id).map Value.sense =
      (other.values.lookup v.id).map Value.sense := by
    rw [← lookup_map_values, ← lookup_map_values]
    exact congrArg (fun s : List (VariableId × Sense) × List Nat => s.1.lookup v.id) h
  rw [get, get]
  cases hr : row.values.lookup v.id with
  | none =>
    rw [hr, Option.map_none, eq_comm, Option.map_eq_none_iff] at same
    rw [same]
  | some a =>
    rw [hr, Option.map_some, eq_comm, Option.map_eq_some_iff] at same
    obtain ⟨b, hb, hab⟩ := same
    rw [hb]
    exact congrArg Except.ok hab.symm

theorem read_congr (vs : List Variable) :
    (row.read vs).map (·.map Value.sense) = (other.read vs).map (·.map Value.sense) := by
  refine (inTurn_read row).congr (inTurn_read other) (rfl : vs.map id = vs.map id) fun v w hvw => ?_
  cases show v = w from hvw
  exact get_congr h v

theorem bind_congr (v : Variable) {a b : Value} (hab : a.sense = b.sense) :
    (row.bind v a).sense = (other.bind v b).sense := by
  rw [sense_bind, sense_bind, h, hab]

theorem bindFact_congr (v : Variable) (fact : Fact) :
    (row.bindFact v fact).sense = (other.bindFact v fact).sense := by
  obtain ⟨hv, hf⟩ := Prod.mk.inj h
  rw [bindFact, sense]
  show ((v.id, fact.value.sense) :: _, row.facts ++ _) =
    ((v.id, fact.value.sense) :: _, other.facts ++ _)
  rw [hv, hf]

theorem merge_congr {a b : Row} (hab : a.sense = b.sense) :
    (row.merge a).sense = (other.merge b).sense := by
  rw [sense_merge, sense_merge, h, hab]

end Row

/-! ## Lists of rows -/

namespace Row

section
variable {test : Row → Except SessionError Bool} {rows out : List Row}

/-- Whether a row passes a test, as one that fails does not. -/
def passing (test : Row → Except SessionError Bool) (row : Row) : Bool :=
  (test row).toOption.getD false

/-- Rows are kept if every test succeeds, and then those that pass. -/
theorem keep_eq_ok_iff : keep test rows = .ok out ↔
    (∀ row ∈ rows, test row = .ok (passing test row)) ∧ rows.filter (passing test) = out := by
  induction rows generalizing out with
  | nil =>
    exact ⟨fun h => ⟨List.forall_mem_nil _, Except.ok.inj h⟩, fun h => congrArg Except.ok h.2⟩
  | cons row rows ih =>
    rw [List.forall_mem_cons, List.filter_cons]
    constructor
    · intro h
      obtain ⟨kept, hkept, h⟩ := bind_eq_ok.1 h
      obtain ⟨rest, hrest, h⟩ := bind_eq_ok.1 h
      obtain ⟨succeeds, rfl⟩ := ih.1 hrest
      have passes : passing test row = kept := by
        rw [passing, hkept]
        rfl
      rw [passes]
      exact ⟨⟨hkept, succeeds⟩, Except.ok.inj h⟩
    · rintro ⟨⟨first, succeeds⟩, rfl⟩
      rw [keep, first, ih.2 ⟨succeeds, rfl⟩]
      rfl

theorem keep_eq_filter {p : Row → Bool} (h : ∀ row ∈ rows, test row = .ok (p row)) :
    keep test rows = .ok (rows.filter p) := by
  have passes : ∀ row ∈ rows, passing test row = p row := fun row hrow => by
    rw [passing, h row hrow]
    rfl
  exact keep_eq_ok_iff.2
    ⟨fun row hrow => passes row hrow ▸ h row hrow, List.filter_congr passes⟩

end

section
variable {rows others : List Row} (h : senses rows = senses others)
include h

theorem keep_congr {test test' : Row → Except SessionError Bool}
    (ht : ∀ r r' : Row, r.sense = r'.sense → test r = test' r') :
    (keep test rows).map senses = (keep test' others).map senses := by
  induction rows generalizing others with
  | nil =>
    cases others with
    | nil => rfl
    | cons => cases h
  | cons row rows ih =>
    cases others with
    | nil => cases h
    | cons other others =>
      obtain ⟨hrow, hrest⟩ := List.cons.inj h
      rw [keep, keep, ht row other hrow]
      refine map_bind_congr (p := id) rfl fun a b hab =>
        map_bind_congr (ih hrest) fun as bs hs => map_pure_congr ?_
      cases show a = b from hab
      cases a with
      | false => exact hs
      | true => exact congrArg₂ List.cons hrow hs

theorem change_congr {f : Row → Except SessionError Row}
    (hf : ∀ r r' : Row, r.sense = r'.sense → (f r).map sense = (f r').map sense) :
    (change f rows).map senses = (change f others).map senses :=
  (inTurn_change f).congr (inTurn_change f) h hf

theorem cross_congr {α γ : Type} (limit : Nat) {as bs : List α} {p : α → γ}
    (hs : as.map p = bs.map p) {join : Row → α → Row}
    (hj : ∀ r r' : Row, r.sense = r'.sense → ∀ a b, p a = p b →
      (join r a).sense = (join r' b).sense) :
    (cross limit rows as join).map senses = (cross limit others bs join).map senses := by
  have hrows : rows.length = others.length := by simpa [senses] using congrArg List.length h
  have hitems : as.length = bs.length := by simpa using congrArg List.length hs
  have all : senses (rows.flatMap fun row => as.map (join row)) =
      senses (others.flatMap fun row => bs.map (join row)) := by
    simp only [senses, List.map_flatMap, List.map_map]
    rw [List.flatMap_def, List.flatMap_def]
    refine congrArg List.flatten (map_eq_map_of_view h fun r r' hr => ?_)
    exact map_eq_map_of_view hs fun a b hab => hj r r' hr a b hab
  rw [cross, cross, hrows, hitems]
  split
  · rfl
  · exact congrArg Except.ok all

end

end Row

/-! ## Steps -/

theorem JoinTest.passes_congr {test : JoinTest} (ht : test.comparison.keys.Respects) {r r' : Row}
    (h : r.sense = r'.sense) : test.passes r = test.passes r' := by
  have := map_bind_congr (q := id) (Row.read_congr h test.inputs) fun as bs hs =>
    map_bind_congr (f := fun a => pure (test.comparison.holds as a))
      (g := fun b => pure (test.comparison.holds bs b)) (q := id)
      (Row.get_congr h test.target) fun a b hab =>
        map_pure_congr (KeyComparison.holds_congr hs hab ht)
  rwa [Except.map_id, id, id] at this

theorem ExistenceTest.holds_congr {test : ExistenceTest} (ht : test.joiners.Respects)
    (facts : List Fact) {as bs : List Value} (hs : as.map Value.sense = bs.map Value.sense) :
    test.holds facts as = test.holds facts bs := by
  rw [holds, holds]
  congr 1
  exact List.any_congr rfl fun fact => JoinRule.holds_congr hs rfl ht

theorem ExistenceTest.passes_congr {test : ExistenceTest} (ht : test.joiners.Respects)
    (facts : List Fact) {r r' : Row} (h : r.sense = r'.sense) :
    test.passes facts r = test.passes facts r' := by
  have := map_bind_congr (f := fun as => pure (test.holds facts as))
    (g := fun bs => pure (test.holds facts bs)) (q := id) (Row.read_congr h test.inputs)
    fun as bs hs => map_pure_congr (test.holds_congr ht facts hs)
  rwa [Except.map_id, id, id] at this

/-- Steps that respect equality do the same to rows of the same sense. -/
theorem Step.apply_congr {s : Step} (hs : s.Respects) (facts : List Fact) (limit : Nat)
    {rows others : List Row} (h : Row.senses rows = Row.senses others) :
    (s.apply facts limit rows).map Row.senses = (s.apply facts limit others).map Row.senses := by
  cases s with
  | pattern bound type =>
    refine Row.cross_congr h limit (p := id) rfl fun r r' hr a b hab => ?_
    cases show a = b from hab
    exact Row.bindFact_congr hr bound a
  | filter inputs p =>
    refine Row.keep_congr h fun r r' hr => ?_
    have := map_bind_congr (f := fun as => pure (p as)) (g := fun bs => pure (p bs)) (q := id)
      (Row.read_congr hr inputs) fun as bs hab => map_pure_congr (TuplePredicate.Respects.eq hab hs)
    rwa [Except.map_id, id, id] at this
  | join test => exact Row.keep_congr h fun r r' hr => JoinTest.passes_congr hs hr
  | bind bound inputs f =>
    refine Row.change_congr h fun r r' hr => ?_
    exact map_bind_congr (Row.read_congr hr inputs) fun as bs hab =>
      map_pure_congr (Row.bind_congr hr bound (TupleFunction.Respects.sense hab hs))
  | existence test => exact Row.keep_congr h fun r r' hr => test.passes_congr hs facts hr

end MatchAlgebra
