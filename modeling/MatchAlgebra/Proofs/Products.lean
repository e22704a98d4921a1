import MatchAlgebra.Proofs.Recomputation

/-!
# Conditions beside other rows

A condition looks at a row through the variables it reads, and the groups of a grouping do not
depend on the rows before it.  So what conditions make of rows they also make of the same rows
beside others: with no limit,

    deriveAll base cs = .ok out  →
      deriveAll (product rows base) cs = .ok (product rows out)             (deriveAll_product)

In particular conditions that started from nothing act on given rows as a cross product.
-/

namespace MatchAlgebra

namespace Row

/-! ## Reading one variable at a time -/

variable {row base other : Row}

theorem get_bind (row : Row) (v w : Variable) (a : Value) :
    (row.bind v a).get w = if w.id = v.id then .ok a else row.get w := by
  rw [get, Row.bind, List.lookup_cons]
  by_cases h : w.id = v.id
  · simp [h]
  · rw [beq_false_of_ne h, if_neg h]
    rfl

theorem get_merge (h : base.get v = .ok a) (row : Row) : (row.merge base).get v = .ok a := by
  unfold get at h ⊢
  rw [merge, List.lookup_append]
  cases hb : base.values.lookup v.id with
  | none =>
    rw [hb] at h
    cases h
  | some b =>
    rw [hb] at h
    exact h

/-- The bindings of the row are of such variables only. -/
def Within (P : VariableId → Prop) (row : Row) : Prop := ∀ b ∈ row.values, P b.1

theorem get_merge_of_within {P : VariableId → Prop} (h : base.Within P) {v : Variable}
    (hv : ¬ P v.id) (row : Row) : (row.merge base).get v = row.get v := by
  have absent : base.values.lookup v.id = none := by
    rw [List.lookup_eq_none_iff]
    intro b hb
    have hne : v.id ≠ b.1 := fun heq => hv (heq ▸ h b hb)
    exact bne_iff_ne.2 hne
  rw [get, get, merge, List.lookup_append, absent, Option.none_or]

theorem read_merge {vs : List Variable} {xs : List Value} (h : base.read vs = .ok xs) (row : Row) :
    (row.merge base).read vs = .ok xs := by
  rw [read_eq_ok_iff] at h ⊢
  exact h.imp fun v x hv => get_merge hv row

theorem read_merge_of_within {P : VariableId → Prop} (h : base.Within P) {vs : List Variable}
    (hvs : ∀ v ∈ vs, ¬ P v.id) (row : Row) : (row.merge base).read vs = row.read vs :=
  read_eq_of_get fun v hv => get_merge_of_within h (hvs v hv) row

theorem read_append {vs ws : List Variable} {xs ys : List Value} (hv : row.read vs = .ok xs)
    (hw : row.read ws = .ok ys) : row.read (vs ++ ws) = .ok (xs ++ ys) := by
  rw [read_eq_ok_iff] at hv hw ⊢
  exact List.rel_append hv hw

theorem read_append_iff {vs ws : List Variable} {xs ys : List Value} (h : vs.length = xs.length) :
    row.read (vs ++ ws) = .ok (xs ++ ys) ↔ row.read vs = .ok xs ∧ row.read ws = .ok ys := by
  refine ⟨fun hread => ?_, fun hread => read_append hread.1 hread.2⟩
  rw [read_eq_ok_iff] at hread
  have left := List.forall₂_take vs.length hread
  have right := List.forall₂_drop vs.length hread
  rw [List.take_left, h, List.take_left] at left
  rw [List.drop_left, h, List.drop_left] at right
  exact ⟨read_eq_ok_iff.2 left, read_eq_ok_iff.2 right⟩

/-- Binding a variable that is not read changes nothing. -/
theorem read_bind_of_not_mem {vs : List Variable} {v : Variable} (h : v.id ∉ vs.map (·.id))
    (row : Row) (a : Value) : (row.bind v a).read vs = row.read vs :=
  read_eq_of_get fun w hw => by
    rw [get_bind, if_neg fun heq => h (List.mem_map.2 ⟨w, hw, heq⟩)]

theorem read_eq_of_values (h : row.values = other.values) (vs : List Variable) :
    row.read vs = other.read vs :=
  read_eq_of_get fun v _ => by rw [get, get, h]

theorem merge_empty (row : Row) : row.merge .empty = row := by
  rw [merge, empty, List.nil_append, List.append_nil]

theorem empty_merge (row : Row) : Row.empty.merge row = row := by
  rw [merge, empty, List.append_nil, List.nil_append]

theorem merge_assoc (row base other : Row) :
    (row.merge base).merge other = row.merge (base.merge other) := by
  rw [merge, merge, merge, merge, List.append_assoc, List.append_assoc]

/-! ## Products -/

/-- Each row with each of the others, row by row. -/
def product (rows base : List Row) : List Row := rows.flatMap fun row => base.map row.merge

theorem product_empty (rows : List Row) : product rows [.empty] = rows := by
  rw [product]
  simp only [List.map_cons, List.map_nil, merge_empty]
  exact List.flatMap_singleton' rows

/-- Rows go through one by one, and what stands beside them does not matter. -/
structure Rowwise (F : List Row → Except SessionError (List Row)) : Prop where
  nil : ∀ {base out}, F base = .ok out → F [] = .ok []
  append : ∀ {as bs x y : List Row}, F as = .ok x → F bs = .ok y → F (as ++ bs) = .ok (x ++ y)
  merge : ∀ (row : Row) {base out}, F base = .ok out →
    F (base.map row.merge) = .ok (out.map row.merge)

theorem Rowwise.product {F : List Row → Except SessionError (List Row)} (h : Rowwise F)
    {base out : List Row} (hb : F base = .ok out) (rows : List Row) :
    F (product rows base) = .ok (Row.product rows out) := by
  induction rows with
  | nil => exact h.nil hb
  | cons row rows ih => exact h.append (h.merge row hb) ih

theorem cross_zero {α : Type} (rows : List Row) (items : List α) (join : Row → α → Row) :
    cross 0 rows items join = .ok (rows.flatMap fun row => items.map (join row)) := rfl

theorem rowwise_cross {α : Type} (items : List α) {join : Row → α → Row}
    (hj : ∀ (row base : Row) a, join (row.merge base) a = row.merge (join base a)) :
    Rowwise fun rows => cross 0 rows items join where
  nil _ := rfl
  append ha hb := by
    rw [cross_zero] at ha hb ⊢
    cases ha
    cases hb
    rw [List.flatMap_append]
  merge row base out h := by
    rw [cross_zero] at h ⊢
    cases h
    rw [List.flatMap_map, List.map_flatMap]
    congr 2
    funext b
    rw [List.map_map]
    exact List.map_congr_left fun a _ => hj row b a

theorem rowwise_keep {test : Row → Except SessionError Bool}
    (ht : ∀ (row base : Row) b, test base = .ok b → test (row.merge base) = .ok b) :
    Rowwise (keep test) where
  nil _ := rfl
  append ha hb := by
    rw [keep_eq_ok_iff] at *
    refine ⟨List.forall_mem_append.2 ⟨ha.1, hb.1⟩, ?_⟩
    rw [List.filter_append, ha.2, hb.2]
  merge row base out h := by
    obtain ⟨succeeds, rfl⟩ := keep_eq_ok_iff.1 h
    have beside : ∀ b ∈ base, test (row.merge b) = .ok (passing test b) := fun b hb =>
      ht row b _ (succeeds b hb)
    have same : ∀ b ∈ base, (passing test ∘ row.merge) b = passing test b := fun b hb => by
      rw [Function.comp, passing, beside b hb]
      rfl
    refine keep_eq_ok_iff.2 ⟨List.forall_mem_map.2 fun b hb => ?_, ?_⟩
    · rw [beside b hb, ← same b hb]
      rfl
    · rw [List.filter_map, List.filter_congr same]

theorem rowwise_change {f : Row → Except SessionError Row}
    (hf : ∀ (row base b : Row), f base = .ok b → f (row.merge base) = .ok (row.merge b)) :
    Rowwise (change f) where
  nil _ := rfl
  append ha hb := by
    rw [(inTurn_change f).eq_ok_iff] at *
    exact List.rel_append ha hb
  merge row base out h := by
    rw [(inTurn_change f).eq_ok_iff] at h ⊢
    rw [List.forall₂_map_left_iff, List.forall₂_map_right_iff]
    exact h.imp fun b c hbc => hf row b c hbc

/-- Groups that do not depend on the rows are joined with each of them. -/
theorem rowwise_groups (made : Except SessionError (List Row)) :
    Rowwise fun rows => made >>= fun groups => cross 0 rows groups merge := by
  cases made with
  | error e =>
    constructor
    · intro base out h
      cases h
    · intro as bs x y h
      cases h
    · intro row base out h
      cases h
  | ok groups => exact rowwise_cross groups merge_assoc

end Row

/-! ## Conditions -/

theorem Step.rowwise (s : Step) (facts : List Fact) :
    Row.Rowwise fun rows => s.apply facts 0 rows := by
  cases s with
  | pattern v type =>
    refine Row.rowwise_cross _ fun row base fact => ?_
    rw [Row.bindFact, Row.bindFact, Row.bind, Row.bind, Row.merge, Row.merge, List.cons_append,
      List.append_assoc]
  | filter inputs p =>
    refine Row.rowwise_keep fun row base b h => ?_
    have hbind : (base.read inputs >>= fun as => pure (p as)) = .ok b := h
    obtain ⟨as, has, h⟩ := bind_eq_ok.1 hbind
    rw [Row.read_merge has]
    exact h
  | join test =>
    refine Row.rowwise_keep fun row base b h => ?_
    obtain ⟨as, has, h⟩ := bind_eq_ok.1 h
    obtain ⟨a, ha, h⟩ := bind_eq_ok.1 h
    rw [JoinTest.passes, Row.read_merge has, Row.get_merge ha]
    exact h
  | bind v inputs f =>
    refine Row.rowwise_change fun row base b h => ?_
    obtain ⟨as, has, h⟩ := bind_eq_ok.1 h
    cases h
    rw [Row.read_merge has]
    rfl
  | existence test =>
    refine Row.rowwise_keep fun row base b h => ?_
    obtain ⟨as, has, h⟩ := bind_eq_ok.1 h
    rw [ExistenceTest.passes, Row.read_merge has]
    exact h

namespace Condition

variable {groups : GroupRows} {facts : List Fact}

theorem deriveAll_append (groups : GroupRows) (facts : List Fact) (limit : Nat) (rows : List Row)
    (cs ds : List Condition) : deriveAll groups facts limit rows (cs ++ ds) =
      deriveAll groups facts limit rows cs >>= fun rows =>
        deriveAll groups facts limit rows ds := by
  induction cs generalizing rows with
  | nil => rfl
  | cons c cs ih =>
    rw [List.cons_append, deriveAll, deriveAll, bind_assoc]
    congr 1
    funext rows
    exact ih rows

theorem derive_rowwise (c : Condition) (groups : GroupRows) (facts : List Fact) :
    Row.Rowwise fun rows => c.derive groups facts 0 rows := by
  cases c with
  | step id s => exact s.rowwise facts
  | group id grouping input =>
    have crosses : ∀ rows, (group id grouping input).derive groups facts 0 rows =
        (deriveAll groups facts 0 [Row.empty] input >>= fun inner =>
          groups id grouping <$> grouping.keyedAll inner) >>= fun grouped =>
            Row.cross 0 rows grouped Row.merge := by
      intro rows
      rw [derive, bind_assoc]
      congr 1
      funext inner
      rw [bind_map_left]
    rw [funext crosses]
    exact Row.rowwise_groups _

/-- Conditions act on given rows as a cross product with what they make by themselves. -/
theorem deriveAll_product {base out : List Row} {cs : List Condition}
    (h : deriveAll groups facts 0 base cs = .ok out) (rows : List Row) :
    deriveAll groups facts 0 (Row.product rows base) cs = .ok (Row.product rows out) := by
  induction cs generalizing base with
  | nil =>
    cases h
    rfl
  | cons c cs ih =>
    obtain ⟨next, hnext, h⟩ := bind_eq_ok.1 h
    rw [deriveAll, (c.derive_rowwise groups facts).product hnext rows]
    exact ih h

end Condition

/-! ## Rows bind what conditions bind -/

section
variable {P : VariableId → Prop} {facts : List Fact} {limit : Nat} {rows out : List Row}

namespace Row

theorem Within.bind {row : Row} (h : row.Within P) {v : Variable} (hv : P v.id) (a : Value) :
    (row.bind v a).Within P := List.forall_mem_cons.2 ⟨hv, h⟩

theorem Within.merge {row other : Row} (h : row.Within P) (ho : other.Within P) :
    (row.merge other).Within P := List.forall_mem_append.2 ⟨ho, h⟩

variable {Q Q' : Row → Prop}

theorem forall_keep {test : Row → Except SessionError Bool} (hrows : ∀ row ∈ rows, Q row)
    (h : keep test rows = .ok out) : ∀ row ∈ out, Q row := by
  obtain ⟨-, rfl⟩ := keep_eq_ok_iff.1 h
  exact fun row hrow => hrows row (List.mem_of_mem_filter hrow)

theorem forall_change {f : Row → Except SessionError Row} (hrows : ∀ row ∈ rows, Q row)
    (hf : ∀ row changed, Q row → f row = .ok changed → Q' changed)
    (h : change f rows = .ok out) : ∀ row ∈ out, Q' row := by
  intro changed hchanged
  obtain ⟨row, hrow, heq⟩ := exists_related_of_mem ((inTurn_change f).eq_ok_iff.1 h) hchanged
  exact hf row changed (hrows row hrow) heq

theorem forall_cross {α : Type} {items : List α} {join : Row → α → Row}
    (hj : ∀ row ∈ rows, ∀ a ∈ items, Q (join row a))
    (h : cross limit rows items join = .ok out) : ∀ row ∈ out, Q row := by
  rw [cross] at h
  split at h
  · cases h
  · cases h
    intro row hrow
    obtain ⟨r, hr, hmem⟩ := List.mem_flatMap.1 hrow
    obtain ⟨a, ha, rfl⟩ := List.mem_map.1 hmem
    exact hj r hr a ha

end Row

theorem Grouping.within_groupRow {grouping : Grouping} (hP : ∀ v ∈ grouping.binds, P v.id)
    (key : Value) (results : List Value) (facts : List Nat) :
    (grouping.groupRow key results facts).Within P := by
  intro b hb
  rw [grouping.values_groupRow, List.mem_append, List.mem_reverse] at hb
  rcases hb with hb | hb
  · have bound : b.1 ∈ grouping.outputs.map (·.bound.id) :=
      (List.of_mem_zip (show (b.1, b.2) ∈ _ from hb)).1
    obtain ⟨output, houtput, heq⟩ := List.mem_map.1 bound
    rw [← heq]
    exact hP _ (List.mem_append_right _ (List.mem_map_of_mem houtput))
  · obtain ⟨k, hk, rfl⟩ := Option.map_eq_some_iff.1 (Option.mem_toList.1 hb)
    exact hP _ (List.mem_append_left _ (by simp [hk]))

/-- Every row is that of a group. -/
def GroupRows.Grouped (groups : GroupRows) : Prop :=
  ∀ id grouping keyed, ∀ row ∈ groups id grouping keyed,
    ∃ key results facts, row = grouping.groupRow key results facts

theorem GroupRows.grouped_afresh : afresh.Grouped := by
  intro id grouping keyed row hrow
  obtain ⟨key, -, rfl⟩ := List.mem_map.1 hrow
  exact ⟨key, _, _, rfl⟩

namespace Condition

variable {groups : GroupRows} (grouped : groups.Grouped)
include grouped

theorem within_derive {c : Condition} (hc : ∀ v ∈ c.binds, P v.id)
    (hrows : ∀ row ∈ rows, row.Within P) (h : c.derive groups facts limit rows = .ok out) :
    ∀ row ∈ out, row.Within P := by
  cases c with
  | step id s =>
    cases s with
    | pattern v type =>
      refine Row.forall_cross (fun row hrow fact _ => ?_) h
      exact (hrows row hrow).bind (hc v List.mem_cons_self) fact.value
    | filter inputs p => exact Row.forall_keep hrows h
    | join test => exact Row.forall_keep hrows h
    | bind v inputs f =>
      refine Row.forall_change hrows (fun row changed hrow hchanged => ?_) h
      obtain ⟨as, -, hchanged⟩ := bind_eq_ok.1 hchanged
      cases hchanged
      exact hrow.bind (hc v List.mem_cons_self) _
    | existence test => exact Row.forall_keep hrows h
  | group id grouping input =>
    obtain ⟨inner, -, h⟩ := bind_eq_ok.1 h
    obtain ⟨keyed, -, h⟩ := bind_eq_ok.1 h
    refine Row.forall_cross (fun row hrow other hother => ?_) h
    obtain ⟨key, results, handles, rfl⟩ := grouped id grouping keyed other hother
    exact (hrows row hrow).merge (Grouping.within_groupRow hc key results handles)

/-- Rows bind what their conditions bind. -/
theorem within_deriveAll {cs : List Condition} (hcs : ∀ v ∈ cs.flatMap binds, P v.id)
    (hrows : ∀ row ∈ rows, row.Within P) (h : deriveAll groups facts limit rows cs = .ok out) :
    ∀ row ∈ out, row.Within P := by
  induction cs generalizing rows with
  | nil =>
    cases h
    exact hrows
  | cons c cs ih =>
    rw [List.flatMap_cons, List.forall_mem_append] at hcs
    obtain ⟨next, hnext, h⟩ := bind_eq_ok.1 h
    exact ih hcs.2 (within_derive grouped hcs.1 hrows hnext) h

end Condition

end

end MatchAlgebra
