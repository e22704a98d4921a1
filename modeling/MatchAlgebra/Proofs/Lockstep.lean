import MatchAlgebra.Proofs.Flattening
import MatchAlgebra.Proofs.Products

/-!
# Rows in step with lists

Rows of bindings are in step with a list if they are as many and each stands in a relation to the
element at its place.  Each kind of condition keeps rows in step with what it does to the list: a
test filters it, a binding maps it, and a cross product pairs it with another list.

A grouping sorts packed keys.  These are ordered as the vectors that they pack, so its rows are in
step with the groups (`Grouping.regrouped_in_step`), and the conditions after it take the packed
keys apart again (`KeyLayout.in_step`).
-/

namespace MatchAlgebra

/-! ## Rows in step with lists -/

section
variable {α β : Type} {R : Row → α → Prop} {rows : List Row} {xs : List α}

theorem Row.keep_in_step {test : Row → Except SessionError Bool} {p : α → Bool}
    (h : List.Forall₂ R rows xs) (ht : ∀ row x, R row x → test row = .ok (p x)) :
    ∃ out, Row.keep test rows = .ok out ∧ List.Forall₂ R out (xs.filter p) := by
  induction h with
  | nil => exact ⟨[], rfl, .nil⟩
  | @cons row x rows xs hx _ ih =>
    obtain ⟨out, hout, hstep⟩ := ih
    rw [Row.keep, ht row x hx, hout, List.filter_cons]
    cases p x with
    | false => exact ⟨out, rfl, hstep⟩
    | true => exact ⟨row :: out, rfl, .cons hx hstep⟩

/-- A binding keeps rows in step if what it makes of each still fits. -/
theorem Step.bind_in_step (facts : List Fact) (limit : Nat) {bound : Variable}
    (inputs : List Variable) (f : TupleFunction) {Q : Row → α → Prop} (h : List.Forall₂ R rows xs)
    (hf : ∀ row x, R row x → ∃ as, row.read inputs = .ok as ∧ Q (row.bind bound (f as)) x) :
    ∃ out, (Step.bind bound inputs f).apply facts limit rows = .ok out ∧
      List.Forall₂ Q out xs := by
  show ∃ out, Row.change _ rows = .ok out ∧ _
  induction h with
  | nil => exact ⟨[], rfl, .nil⟩
  | @cons row x rows xs hx _ ih =>
    obtain ⟨out, hout, hstep⟩ := ih
    obtain ⟨as, has, hq⟩ := hf row x hx
    refine ⟨row.bind bound (f as) :: out, ?_, .cons hq hstep⟩
    rw [Row.change, has, hout]
    rfl

/-- The step filters rows in step with a list as the predicate filters the list. -/
def Step.Keeps (facts : List Fact) (R : Row → α → Prop) (s : Step) (p : α → Bool) : Prop :=
  ∀ (rows : List Row) (xs : List α), List.Forall₂ R rows xs →
    ∃ out, s.apply facts 0 rows = .ok out ∧ List.Forall₂ R out (xs.filter p)

theorem Condition.deriveAll_keeps (groups : GroupRows) {facts : List Fact} {cs : List Condition}
    {steps : List Step} {ps : List (α → Bool)} (hd : List.Forall₂ Condition.Does cs steps)
    (hk : List.Forall₂ (Step.Keeps facts R) steps ps) (h : List.Forall₂ R rows xs) :
    ∃ out, Condition.deriveAll groups facts 0 rows cs = .ok out ∧
      List.Forall₂ R out (xs.filter fun x => ps.all (· x)) := by
  induction hd generalizing ps rows xs with
  | nil =>
    cases hk
    refine ⟨rows, rfl, ?_⟩
    simpa using h
  | cons hc _ ih =>
    cases hk with
    | @cons _ p _ ps hp hps =>
      obtain ⟨id, rfl⟩ := hc
      obtain ⟨next, hnext, hstep⟩ := hp rows xs h
      obtain ⟨out, hout, hrest⟩ := ih hps hstep
      refine ⟨out, ?_, ?_⟩
      · rw [Condition.deriveAll, Condition.derive, hnext]
        exact hout
      · rw [List.filter_filter] at hrest
        simpa only [List.all_cons, Bool.and_comm] using hrest

/-- The product of rows in step with two lists is in step with their pairs. -/
theorem Row.product_in_step {R' : Row → β → Prop} {S : Row → α × β → Prop} {base : List Row}
    {ys : List β} (h : List.Forall₂ R rows xs) (h' : List.Forall₂ R' base ys)
    (hs : ∀ row x other y, R row x → R' other y → S (row.merge other) (x, y)) :
    List.Forall₂ S (Row.product rows base) (xs.flatMap fun x => ys.map fun y => (x, y)) := by
  refine List.rel_flatMap h fun row x hx => ?_
  rw [List.forall₂_map_left_iff, List.forall₂_map_right_iff]
  exact h'.imp fun other y hy => hs row x other y hx hy

end

/-! ## Joins -/

section
variable {facts : List Fact} {vs : List Variable} {target : Variable} {rule : JoinRule}

/-- The row binds both parts of a pair. -/
def Row.ReadsPair (vs : List Variable) (target : Variable) (row : Row)
    (z : List Value × List Value) : Prop :=
  row.read vs = .ok z.1 ∧ row.read [target] = .ok z.2

theorem Row.ReadsPair.get {row : Row} {z : List Value × List Value}
    (h : Row.ReadsPair vs target row z) :
    row.get target = .ok (valueAt 0 z.2) ∧ z.2 = [valueAt 0 z.2] := by
  obtain ⟨x, y⟩ := z
  obtain ⟨a, ha, h⟩ := bind_eq_ok.1 h.2
  cases h
  exact ⟨ha, rfl⟩

theorem Step.keeps_join (index : Nat) (c : KeyComparison) :
    Step.Keeps facts (Row.ReadsPair vs target) (.join ⟨vs, target, index, c⟩)
      fun z => c.holds z.1 (valueAt 0 z.2) := by
  intro rows zs h
  refine Row.keep_in_step h fun row z hz => ?_
  rw [JoinTest.passes, hz.1, hz.get.1]
  rfl

/-- A test of pairs gets the left values, and the first one that stands behind them. -/
theorem JoinPredicates.overPair_append (filter : JoinPredicates) {n : Nat} {xs : List Value}
    (h : xs.length = n) (ys : List Value) :
    filter.overPair n (xs ++ ys) = filter.holds xs (valueAt 0 ys) := by
  have left : (xs ++ ys).take n = xs := by rw [← h, List.take_left]
  have right : valueAt n (xs ++ ys) = valueAt 0 ys := by
    rw [valueAt, valueAt, ← h, List.getElem?_append_right le_rfl, Nat.sub_self]
  rw [overPair, left, right]

theorem Step.keeps_filter_pair (filter : JoinPredicates) :
    Step.Keeps facts (Row.ReadsPair vs target)
      (.filter (vs ++ [target]) (filter.overPair vs.length))
      fun z => filter.holds z.1 (valueAt 0 z.2) := by
  intro rows zs h
  refine Row.keep_in_step h fun row z hz => ?_
  have whole : row.read (vs ++ [target]) = .ok (z.1 ++ z.2) := Row.read_append hz.1 hz.2
  have length : z.1.length = vs.length := (Row.read_eq_ok_iff.1 hz.1).length_eq.symm
  rw [whole]
  exact congrArg Except.ok (filter.overPair_append length z.2)

/-- A rule holds if its numbered comparisons and its filters do. -/
theorem JoinRule.all_parts (rule : JoinRule) (tuple : List Value) (candidate : Value) :
    ((rule.comparisons.zipIdx.all fun c => c.1.holds tuple candidate) &&
      rule.filter.toList.all (·.holds tuple candidate)) = rule.holds tuple candidate := by
  have numbered : (rule.comparisons.zipIdx.all fun c => c.1.holds tuple candidate) =
      rule.comparisons.all (·.holds tuple candidate) := by
    conv_rhs => rw [← List.zipIdx_map_fst 0 rule.comparisons]
    rw [List.all_map]
    rfl
  rw [numbered, holds]
  obtain ⟨indexed, filter⟩ := rule
  congr 1
  · cases indexed <;> rfl
  · cases filter with
    | none => rfl
    | some filter => exact Bool.and_true _

/-- What a join requires of pairs is its rule. -/
theorem Expression.keeps_joinSteps (facts : List Fact) (vs : List Variable) (target : Variable)
    (rule : JoinRule) : ∃ ps : List (List Value × List Value → Bool),
    List.Forall₂ (Step.Keeps facts (Row.ReadsPair vs target))
      (Expression.joinSteps vs target rule) ps ∧
    ∀ z, ps.all (· z) = rule.holds z.1 (valueAt 0 z.2) := by
  refine ⟨(rule.comparisons.zipIdx.map fun c z => c.1.holds z.1 (valueAt 0 z.2)) ++
    rule.filter.toList.map fun filter z => filter.holds z.1 (valueAt 0 z.2), ?_, fun z => ?_⟩
  · refine List.rel_append ?_ ?_
    · rw [List.forall₂_map_left_iff, List.forall₂_map_right_iff, List.forall₂_same]
      exact fun c _ => Step.keeps_join c.2 c.1
    · rw [List.forall₂_map_left_iff, List.forall₂_map_right_iff, List.forall₂_same]
      exact fun filter _ => Step.keeps_filter_pair filter
  · rw [List.all_append, List.all_map, List.all_map]
    exact rule.all_parts z.1 (valueAt 0 z.2)

end

/-! ## Packed keys -/

/-- Functions that order arguments alike find the same ones different. -/
theorem exists_distinct {α : Type} {f w : α → Value}
    (h : ∀ x y, (f x).compare (f y) = (w x).compare (w y)) (xs : List α) :
    ∃ zs : List α, Value.distinct (xs.map f) = zs.map f ∧ Value.distinct (xs.map w) = zs.map w := by
  have same : ∀ x y, (f x == f y) = (w x == w y) := fun x y => by
    rw [Bool.eq_iff_iff, ← Value.compare_eq_iff, ← Value.compare_eq_iff, h]
  induction hn : xs.length using Nat.strongRecOn generalizing xs with
  | ind n ih =>
    cases xs with
    | nil => exact ⟨[], rfl, rfl⟩
    | cons x xs =>
      subst hn
      obtain ⟨zs, hf, hw⟩ := ih _ (Nat.lt_succ_of_le (List.length_filter_le ..))
        (xs.filter fun y => !f y == f x) rfl
      refine ⟨x :: zs, ?_, ?_⟩
      · rw [Value.distinct, List.map_cons, List.eraseDups_cons, List.filter_map, List.map_cons]
        exact congrArg _ hf
      · rw [Value.distinct, List.map_cons, List.eraseDups_cons, List.filter_map, List.map_cons,
          ← hw, Value.distinct]
        simp only [Function.comp_def, same]

/-- Functions that order arguments alike give the same different values in the same order. -/
theorem exists_representatives {α : Type} {f w : α → Value}
    (h : ∀ x y, (f x).compare (f y) = (w x).compare (w y)) (xs : List α) :
    ∃ zs : List α, Value.sort (Value.distinct (xs.map f)) = zs.map f ∧
      Value.sort (Value.distinct (xs.map w)) = zs.map w := by
  obtain ⟨ys, hf, hw⟩ := exists_distinct h xs
  refine ⟨ys.mergeSort fun x y => (f x).compare (f y) != .gt, ?_, ?_⟩
  · rw [hf, Value.sort, List.map_mergeSort]
    exact fun _ _ _ _ => rfl
  · rw [hw, Value.sort, List.map_mergeSort]
    intro x _ y _
    rw [h]

/-- The key that stands for a vector of keys. -/
def packedKey : List TupleFunction → TupleFunction
  | [] => fun _ => .null
  | [key] => key
  | keys => keyTuple keys

/-- Packed keys are ordered as the vectors they stand for. -/
theorem compare_packedKey (keys : List TupleFunction) (x y : List Value) :
    (packedKey keys x).compare (packedKey keys y) =
      (keyTuple keys x).compare (keyTuple keys y) := by
  match keys with
  | [] => rfl
  | [key] =>
    show (key x).compare (key y) = Value.compareAll [key x] [key y]
    rw [Value.compareAll, Value.compareAll]
    cases (key x).compare (key y) <;> rfl
  | _ :: _ :: _ => rfl

theorem packedKey_beq (keys : List TupleFunction) (x y : List Value) :
    (packedKey keys x == packedKey keys y) = (keyTuple keys x == keyTuple keys y) := by
  rw [Bool.eq_iff_iff, ← Value.compare_eq_iff, ← Value.compare_eq_iff, compare_packedKey]

theorem KeyLayout.keyOf {keys : List TupleFunction} {key : Option GroupKey}
    {components : List Variable} {cs : List Condition} (h : KeyLayout keys key components cs)
    {vs : List Variable} {source : Option Variable} {outputs : List CollectorOutput} {row : Row}
    {x : List Value} (hx : row.read vs = .ok x) :
    Grouping.keyOf ⟨vs, source, key, outputs⟩ row = .ok (packedKey keys x) := by
  unfold Grouping.keyOf
  cases h with
  | none => rfl
  | one key =>
    dsimp only
    rw [hx]
    rfl
  | packed several =>
    dsimp only
    rw [hx]
    match keys, several with
    | _ :: _ :: _, _ => rfl

theorem components_of_packed {vars : List Variable} {vals : List Value}
    (h : vars.length = vals.length) :
    (vars.zipIdx.map fun p => keyComponent p.2 [.tuple vals]) = vals := by
  refine List.ext_getElem (by simpa using h) fun i hi hi' => ?_
  rw [List.getElem_map, List.getElem_zipIdx, Nat.zero_add]
  show vals[i]?.getD .null = vals[i]
  rw [List.getElem?_eq_getElem hi', Option.getD_some]

/-! ## Groups -/

namespace Grouping

/-- Bindings for other variables leave a variable as it was. -/
theorem get_foldl_bind (outputs : List CollectorOutput) (results : List Value) (row : Row)
    {v : Variable} (hv : v.id ∉ (outputs.map (·.bound)).map (·.id)) :
    ((outputs.zip results).foldl (fun row (output, result) => row.bind output.bound result)
      row).get v = row.get v := by
  induction outputs generalizing results row with
  | nil => rfl
  | cons output outputs ih =>
    rw [List.map_cons, List.map_cons, List.mem_cons, not_or] at hv
    cases results with
    | nil => rfl
    | cons result results =>
      refine (ih results (row.bind output.bound result) hv.2).trans ?_
      rw [Row.get_bind, if_neg hv.1]

theorem read_foldl_bind {outputs : List CollectorOutput} {results : List Value}
    (hlen : results.length = outputs.length)
    (nodup : ((outputs.map (·.bound)).map (·.id)).Nodup) (row : Row) :
    ((outputs.zip results).foldl (fun row (output, result) => row.bind output.bound result)
      row).read (outputs.map (·.bound)) = .ok results := by
  induction outputs generalizing results row with
  | nil =>
    rw [List.length_eq_zero_iff.1 hlen]
    rfl
  | cons output outputs ih =>
    cases results with
    | nil => cases hlen
    | cons result results =>
      rw [List.map_cons, List.map_cons, List.nodup_cons] at nodup
      have rest := ih (Nat.succ.inj hlen) nodup.2 (row.bind output.bound result)
      have head := get_foldl_bind outputs results (row.bind output.bound result) nodup.1
      rw [Row.get_bind, if_pos rfl] at head
      rw [List.map_cons, Row.read, List.zip_cons_cons, List.foldl_cons, head, rest]
      rfl

/-- The row of a group binds the results. -/
theorem read_groupRow (grouping : Grouping) {results : List Value}
    (hlen : results.length = grouping.outputs.length)
    (nodup : ((grouping.outputs.map (·.bound)).map (·.id)).Nodup) (key : Value)
    (facts : List Nat) :
    (grouping.groupRow key results facts).read (grouping.outputs.map (·.bound)) = .ok results := by
  obtain ⟨vs, source, groupKey, outputs⟩ := grouping
  cases groupKey with
  | none =>
    rw [← read_foldl_bind hlen nodup .empty]
    apply Row.read_eq_of_values
    rfl
  | some groupKey =>
    rw [← read_foldl_bind hlen nodup (Row.empty.bind groupKey.bound key)]
    apply Row.read_eq_of_values
    rfl

/-- The row of a group binds the key, unless a result takes its variable. -/
theorem get_groupRow (grouping : Grouping) (key : Value) (results : List Value) (facts : List Nat)
    {k : GroupKey} (hk : k ∈ grouping.key)
    (fresh : k.bound.id ∉ (grouping.outputs.map (·.bound)).map (·.id)) :
    (grouping.groupRow key results facts).get k.bound = .ok key := by
  refine (get_foldl_bind grouping.outputs results _ fresh).trans ?_
  rw [Option.mem_def.1 hk, Row.get_bind, if_pos rfl]

/-- The keyed rows of a grouping in step with the rows of a term. -/
def KeyedAs (keys : List TupleFunction) (source : Option Variable) (k : KeyedSource)
    (x : List Value) : Prop :=
  k.key = packedKey keys x ∧ (source.isSome = true → k.source = .tuple x)

theorem keyedAll_in_step {keys : List TupleFunction} {key : Option GroupKey}
    {components : List Variable} {cs : List Condition} (h : KeyLayout keys key components cs)
    {vs : List Variable} {source : Option Variable} (outputs : List CollectorOutput)
    {rows : List Row} {xs : List (List Value)}
    (hrows : List.Forall₂ (fun row x => row.read vs = .ok x ∧
      ∀ s ∈ source, row.get s = .ok (.tuple x)) rows xs) :
    ∃ ks, keyedAll ⟨vs, source, key, outputs⟩ rows = .ok ks ∧
      List.Forall₂ (KeyedAs keys source) ks xs := by
  induction hrows with
  | nil => exact ⟨[], rfl, .nil⟩
  | @cons row x rows xs hx _ ih =>
    obtain ⟨ks, hks, hstep⟩ := ih
    have one : ∃ k, keyed ⟨vs, source, key, outputs⟩ row = .ok k ∧ KeyedAs keys source k x := by
      rw [keyed_eq, h.keyOf hx.1]
      cases source with
      | none => exact ⟨_, rfl, rfl, fun hs => absurd hs Bool.false_ne_true⟩
      | some s =>
        refine ⟨⟨packedKey keys x, .tuple x, row.facts⟩, ?_, rfl, fun _ => rfl⟩
        rw [sourceOf]
        dsimp only
        rw [hx.2 s rfl]
        rfl
    obtain ⟨k, hk, hkeyed⟩ := one
    refine ⟨k :: ks, ?_, .cons hkeyed hstep⟩
    rw [keyedAll, hk, hks]
    rfl

theorem members_in_step {keys : List TupleFunction} {source : Option Variable}
    {ks : List KeyedSource} {xs : List (List Value)}
    (h : List.Forall₂ (KeyedAs keys source) ks xs) (z : List Value) :
    List.Forall₂ (KeyedAs keys source) (membersOf (packedKey keys z) ks)
      (xs.filter fun x => keyTuple keys x == keyTuple keys z) := by
  induction h with
  | nil => exact .nil
  | @cons k x ks xs hx _ ih =>
    rw [membersOf, List.filter_cons, List.filter_cons, hx.1, packedKey_beq]
    split
    · exact .cons hx ih
    · exact ih

/-- The rows of groups made afresh, in step with what represents the groups. -/
theorem regrouped_in_step {request : GroupRequest} (key : Option GroupKey)
    (vs : List Variable) {source : Option Variable} {outputs : List CollectorOutput}
    (measures : outputs.map (·.collector) = request.collectors)
    (sources : request.collectors ≠ [] → source.isSome = true)
    (nodup : ((outputs.map (·.bound)).map (·.id)).Nodup)
    (key_fresh : ∀ k ∈ key, k.bound.id ∉ (outputs.map (·.bound)).map (·.id))
    {ks : List KeyedSource} {xs : List (List Value)}
    (h : List.Forall₂ (KeyedAs request.keys source) ks xs) :
    ∃ zs : List (List Value),
      request.groups xs = zs.map (fun z => (keyTuple request.keys z).components ++
        request.measure xs (keyTuple request.keys z)) ∧
      List.Forall₂ (fun row z =>
        row.read (outputs.map (·.bound)) = .ok (request.measure xs (keyTuple request.keys z)) ∧
        ∀ k ∈ key, row.get k.bound = .ok (packedKey request.keys z))
        (regrouped ⟨vs, source, key, outputs⟩ ks) zs := by
  have keys : ks.map (·.key) = xs.map (packedKey request.keys) :=
    map_eq_map_iff.2 (h.imp fun k x hx => hx.1)
  obtain ⟨zs, hpacked, hvectors⟩ := exists_representatives (compare_packedKey request.keys) xs
  refine ⟨zs, ?_, ?_⟩
  · rw [GroupRequest.groups, hvectors, List.map_map]
    rfl
  · rw [regrouped, keys, hpacked, List.map_map, List.forall₂_map_left_iff, List.forall₂_same]
    intro z _
    have measured : measure ⟨vs, source, key, outputs⟩ (membersOf (packedKey request.keys z) ks) =
        request.measure xs (keyTuple request.keys z) := by
      rw [measure, collectors, measures]
      refine List.map_congr_left fun c hc => ?_
      have bound := sources (List.ne_nil_of_mem hc)
      congr 1
      rw [← List.forall₂_eq_eq_eq, List.forall₂_map_left_iff]
      refine (members_in_step h z).imp fun k x hx => ?_
      rw [hx.2 bound]
      rfl
    have length : (request.measure xs (keyTuple request.keys z)).length = outputs.length := by
      rw [GroupRequest.measure, List.length_map, ← measures, List.length_map]
    rw [Function.comp_apply, measured]
    exact ⟨read_groupRow ⟨vs, source, key, outputs⟩ length nodup _ _,
      fun k hk => get_groupRow ⟨vs, source, key, outputs⟩ _ _ _ hk (key_fresh k hk)⟩

end Grouping

/-! ## Unpacked keys -/

/-- The steps that unpack a key read it from every row, and leave what was bound before. -/
theorem components_in_step (facts : List Fact) (limit : Nat) {α : Type} {composite : Variable}
    {done vars : List Variable} {cs : List Condition} {n : Nat} {f : α → Value}
    {g : α → List Value} {rows : List Row} {zs : List α}
    (hd : List.Forall₂ Condition.Does cs ((vars.zipIdx n).map fun (v, index) =>
      .bind v [composite] (keyComponent index)))
    (hnodup : ((vars ++ done).map (·.id)).Nodup) (hfresh : composite.id ∉ vars.map (·.id))
    (h : List.Forall₂ (fun row z => row.get composite = .ok (f z) ∧ row.read done = .ok (g z))
      rows zs) :
    ∃ out, Condition.deriveAll .afresh facts limit rows cs = .ok out ∧
      List.Forall₂ (fun row z => row.read done = .ok (g z) ∧
        row.read vars = .ok ((vars.zipIdx n).map fun p => keyComponent p.2 [f z])) out zs := by
  induction vars generalizing done cs n g rows with
  | nil =>
    cases hd
    exact ⟨rows, rfl, h.imp fun row z hz => ⟨hz.2, rfl⟩⟩
  | cons v vars ih =>
    rw [List.zipIdx_cons, List.map_cons, List.forall₂_cons_right_iff] at hd
    obtain ⟨c, cs, ⟨id, rfl⟩, hd, rfl⟩ := hd
    rw [List.map_cons, List.mem_cons, not_or] at hfresh
    have fresh : v.id ∉ done.map (·.id) := by
      intro hmem
      rw [List.cons_append, List.map_cons, List.nodup_cons, List.map_append] at hnodup
      exact hnodup.1 (List.mem_append_right _ hmem)
    -- the variable joins those that are done, for the steps after it
    have nodup : ((vars ++ (done ++ [v])).map (·.id)).Nodup := by
      refine (List.Perm.nodup_iff (List.Perm.map _ ?_)).1 hnodup
      rw [← List.append_assoc]
      exact (List.perm_append_singleton v (vars ++ done)).symm
    obtain ⟨next, hnext, hstep⟩ := Step.bind_in_step facts limit [composite]
      (keyComponent n) (Q := fun row z => row.get composite = .ok (f z) ∧
        row.read (done ++ [v]) = .ok (g z ++ [keyComponent n [f z]])) h
      fun row z hz => by
        refine ⟨[f z], ?_, ?_, Row.read_append ?_ ?_⟩
        · rw [Row.read, hz.1]
          rfl
        · rw [Row.get_bind, if_neg hfresh.1]
          exact hz.1
        · rw [Row.read_bind_of_not_mem fresh]
          exact hz.2
        · rw [Row.read, Row.get_bind, if_pos rfl]
          rfl
    obtain ⟨out, hout, hrest⟩ := ih hd nodup hfresh.2 hstep
    refine ⟨out, ?_, hrest.imp fun row z hz => ?_⟩
    · rw [Condition.deriveAll, Condition.derive]
      show Step.apply facts limit rows (.bind v [composite] (keyComponent n)) >>= _ = _
      rw [hnext]
      exact hout
    · have length : done.length = (g z).length := by
        have := (Row.read_eq_ok_iff.1 hz.1).length_eq
        simpa using this
      obtain ⟨hdone, hv⟩ := (Row.read_append_iff length).1 hz.1
      refine ⟨hdone, ?_⟩
      rw [List.zipIdx_cons, List.map_cons]
      exact Row.read_append hv hz.2

/-- With the key unpacked every group has as many keys as were asked for. -/
theorem KeyLayout.in_step (facts : List Fact) (limit : Nat) {keys : List TupleFunction}
    {key : Option GroupKey} {vars done : List Variable} {cs : List Condition}
    (h : KeyLayout keys key vars cs)
    (hnodup : ((vars ++ done).map (·.id)).Nodup)
    (hfresh : ∀ k ∈ key, k.bound.id ∉ (cs.flatMap Condition.binds).map (·.id))
    {g : List Value → List Value} {rows : List Row} {zs : List (List Value)}
    (hrows : List.Forall₂ (fun row z => row.read done = .ok (g z) ∧
      ∀ k ∈ key, row.get k.bound = .ok (packedKey keys z)) rows zs) :
    ∃ out, Condition.deriveAll .afresh facts limit rows cs = .ok out ∧
      List.Forall₂ (fun row z =>
        row.read (vars ++ done) = .ok ((keyTuple keys z).components ++ g z)) out zs := by
  cases h with
  | none => exact ⟨rows, rfl, hrows.imp fun row z hz => hz.1⟩
  | @one key bound =>
    refine ⟨rows, rfl, hrows.imp fun row z hz => ?_⟩
    have hkey : row.read [bound] = .ok [key z] := by
      rw [Row.read, hz.2 _ rfl]
      rfl
    exact Row.read_append hkey hz.1
  | @packed keys composite components cs several length_eq _ _ binds =>
    have packed : packedKey keys = keyTuple keys := by
      rcases keys with _ | ⟨k, _ | ⟨k', rest⟩⟩
      · exact absurd several (Nat.not_lt_zero 1)
      · exact absurd several (Nat.lt_irrefl 1)
      · rfl
    have fresh := hfresh _ rfl
    rw [Condition.Does.flatMap_binds binds, flatMap_binds_componentSteps] at fresh
    obtain ⟨out, hout, hstep⟩ := components_in_step facts limit binds hnodup fresh
      (hrows.imp fun row z hz => ⟨hz.2 _ rfl, hz.1⟩)
    refine ⟨out, hout, hstep.imp fun row z hz => Row.read_append ?_ hz.1⟩
    rw [hz.2, packed]
    refine congrArg Except.ok (components_of_packed ?_)
    rw [length_eq, List.length_map]

/-- Every row of the input of a grouping binds the tuple and, if there is a source, all of it. -/
theorem SourceLayout.in_step {facts : List Fact} {limit : Nat} {vs : List Variable}
    {cs input : List Condition} {collectors : List Collector} {source : Option Variable}
    (h : SourceLayout vs cs collectors source input) (fresh : ∀ s ∈ source, s.id ∉ vs.map (·.id))
    {xs : List (List Value)} {rows : List Row}
    (hrows : Condition.deriveAll .afresh facts limit [Row.empty] cs = .ok rows)
    (hstep : List.Forall₂ (fun row x => row.read vs = .ok x) rows xs) :
    ∃ out, Condition.deriveAll .afresh facts limit [Row.empty] input = .ok out ∧
      List.Forall₂ (fun row x => row.read vs = .ok x ∧
        ∀ s ∈ source, row.get s = .ok (.tuple x)) out xs := by
  cases h with
  | none => exact ⟨rows, hrows, hstep.imp fun row x hx => ⟨hx, fun s hs => by cases hs⟩⟩
  | @some _ source c _ binds =>
    obtain ⟨id, rfl⟩ := binds
    obtain ⟨out, hout, hbound⟩ := Step.bind_in_step facts limit vs wholeTuple
      (Q := fun row x => row.read vs = .ok x ∧ row.get source = .ok (.tuple x)) hstep
      fun row x hx => by
        refine ⟨x, hx, ?_, ?_⟩
        · rwa [Row.read_bind_of_not_mem (fresh source rfl)]
        · rw [Row.get_bind, if_pos rfl]
          rfl
    refine ⟨out, ?_, hbound.imp fun row x hx => ⟨hx.1, fun s hs => ?_⟩⟩
    · rw [Condition.deriveAll_append, hrows]
      show Condition.deriveAll .afresh facts limit rows [_] = _
      rw [Condition.deriveAll, Condition.derive, hout]
      rfl
    · cases hs
      exact hx.2

theorem SourceLayout.isSome {vs : List Variable} {cs input : List Condition}
    {collectors : List Collector} {source : Option Variable}
    (h : SourceLayout vs cs collectors source input) (hne : collectors ≠ []) :
    source.isSome = true := by
  cases h with
  | none => exact absurd rfl hne
  | some => rfl

end MatchAlgebra
