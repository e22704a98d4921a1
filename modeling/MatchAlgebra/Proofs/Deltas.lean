import Mathlib.Algebra.GroupWithZero.Nat
import MatchAlgebra.Proofs.Reconcile
import MatchAlgebra.Proofs.Tokens

/-!
# Only the difference is fed

Reconciling takes copies back while there are too many, and then feeds copies while there are too
few.  In which order the groups and their tuples are visited is left open; each order is a run:

    Reconciles cs target ps retracts inserts ps'  →  Reconciled cs target ps retracts inserts ps'
                                                                             (reconciled_of_reached)

Whatever the order, a run is as long as the difference, each token that it hands back is still
pending in every accumulation, and in the end the tokens of the tuples are the pending ones.
-/

namespace MatchAlgebra

/-- A tour visits each tuple once. -/
theorem Tour.length_flatMap {β γ : Type} (tour : Tour) {key : Value} {t : ValueTable β}
    {f : Value → List γ} {n : Value × β → Nat}
    (h : ∀ entry ∈ t.toList, (f entry.1).length = n entry) :
    ((tour.order key t.keys).flatMap f).length = (t.toList.map n).sum := by
  rw [((tour.perm key t.keys).flatMap_right f).length_eq, ← Std.TreeMap.map_fst_toList_eq_keys,
    List.flatMap_map, List.length_flatMap, List.map_congr_left h]

/-! ## Targets -/

/-- Every group has a source tuple, and each of its tuples occurs. -/
def GroupInputs.Positive (target : GroupInputs) : Prop :=
  ∀ (k : Value) (input : GroupInput), target[k]? = some input →
    (∃ s : Value, input.sources[s]?.isSome = true) ∧
      ∀ (s : Value) (times : Nat), input.sources[s]? = some times → 0 < times

theorem groupInputs_isSome_iff (rows : List KeyedSource) (k : Value) :
    (groupInputs rows)[k]?.isSome = true ↔ membersOf k rows ≠ [] := by
  induction rows using List.reverseRecOn with
  | nil =>
    rw [groupInputs, List.foldl_nil, Std.TreeMap.getElem?_emptyc]
    exact iff_of_false Bool.false_ne_true (fun h => h rfl)
  | append_singleton rows row ih =>
    rw [groupInputs_concat, membersOf_concat]
    split
    · exact iff_of_true rfl (List.append_ne_nil_of_right_ne_nil _ (List.cons_ne_nil _ _))
    · exact ih

/-- What rows fall into is positive. -/
theorem positive_groupInputs (rows : List KeyedSource) : (groupInputs rows).Positive := by
  intro k input hk
  have holds := groupInputs_holds rows k
  rw [hk, Option.getD_some] at holds
  have found : ∀ s : Value, input.sources[s]? =
      Bag.positive? (((membersOf k rows).map (·.source)).count s) := holds.sources
  constructor
  · obtain ⟨row, hrow⟩ := List.exists_mem_of_ne_nil _
      ((groupInputs_isSome_iff rows k).1 (hk ▸ rfl))
    have occurs : 0 < ((membersOf k rows).map (·.source)).count row.source := by
      rw [List.count, List.countP_pos_iff]
      exact ⟨row.source, List.mem_map_of_mem hrow, BEq.rfl⟩
    refine ⟨row.source, ?_⟩
    rw [found, Bag.positive?, if_neg (Nat.ne_of_gt occurs)]
    rfl
  · intro s times hs
    rw [found, Bag.positive?] at hs
    split at hs
    · cases hs
    · next hne =>
      cases hs
      exact Nat.pos_of_ne_zero hne

/-! ## Runs -/

namespace Change

/-- The key of the group and the source tuple. -/
def subject : Change → Value × Value
  | .retract key source => (key, source)
  | .insert key source => (key, source)

theorem concerns_iff {c : Change} {k s : Value} :
    c.concerns k s = true ↔ (c.subject.1 == k) = true ∧ (c.subject.2 == s) = true := by
  cases c <;> exact Bool.and_eq_true_iff

theorem concerns_self (c : Change) : c.concerns c.subject.1 c.subject.2 = true :=
  concerns_iff.2 ⟨BEq.rfl, BEq.rfl⟩

/-- The group and the source tuple, whatever their spelling. -/
def about (c : Change) : Sense × Sense := (c.subject.1.sense, c.subject.2.sense)

theorem count_about (cs : List Change) (k s : Value) :
    (cs.map about).count (k.sense, s.sense) = cs.countP (·.concerns k s) := by
  rw [List.count, List.countP_map]
  refine List.countP_congr fun c _ => ?_
  rw [Function.comp_apply, beq_iff_eq, about, Prod.mk.injEq, Value.sense_inj, Value.sense_inj,
    concerns_iff]

end Change

namespace Partitions

variable {collectors : List Collector} {target : GroupInputs} {ps ps' : Partitions}
  {retract : Bool} {c : Change} {cs : List Change}

/-- Whether a change leads towards what is wanted. -/
def Due (target : GroupInputs) (ps : Partitions) : Change → Prop
  | .retract k s => wanted target k s < ps.copies k s
  | .insert k s => ps.copies k s < wanted target k s

/-- Retracts, or inserts, that are made one after the other, each when it is due, until none is. -/
inductive Exhausts (collectors : List Collector) (target : GroupInputs) (retract : Bool) :
    Partitions → List Change → Prop
  | done {ps : Partitions} (none_due : ∀ c : Change, c.isRetract = retract → ¬ Due target ps c) :
      Exhausts collectors target retract ps []
  | step {ps : Partitions} {c : Change} {cs : List Change} (kind : c.isRetract = retract)
      (due : Due target ps c)
      (rest : Exhausts collectors target retract (apply collectors ps c) cs) :
      Exhausts collectors target retract ps (c :: cs)

/-- One way to reconcile: all that is due to be taken back is, and then the rest is fed. -/
structure Reconciles (collectors : List Collector) (target : GroupInputs) (ps : Partitions)
    (retracts inserts : List Change) (ps' : Partitions) : Prop where
  drained : Exhausts collectors target true ps retracts
  filled : Exhausts collectors target false (retracts.foldl (apply collectors) ps) inserts
  result : ps' = (retracts ++ inserts).foldl (apply collectors) ps

/-- The groups that can be there after reconciling again and again, in whatever order each time. -/
inductive Reached (collectors : List Collector) : Partitions → Prop
  | empty : Reached collectors ∅
  | reconcile {ps ps' : Partitions} {target : GroupInputs} {retracts inserts : List Change}
      (h : Reached collectors ps) (positive : target.Positive)
      (run : Reconciles collectors target ps retracts inserts ps') : Reached collectors ps'

/-- How many copies are still to be taken back, or to be fed. -/
def remaining (retract : Bool) (target : GroupInputs) (ps : Partitions) (k s : Value) : Nat :=
  if retract then ps.copies k s - wanted target k s else wanted target k s - ps.copies k s

theorem remaining_congr {k k' s s' : Value} (hk : k == k') (hs : s == s') :
    remaining retract target ps k s = remaining retract target ps k' s' := by
  rw [remaining, remaining, copies_congr ps hk hs, wanted_congr hk hs]

theorem due_iff :
    Due target ps c ↔ 0 < remaining c.isRetract target ps c.subject.1 c.subject.2 := by
  cases c <;> exact Nat.sub_pos_iff_lt.symm

/-- A change that is due leaves one less of its kind, and of no others. -/
theorem remaining_apply (due : Due target ps c) (k s : Value) :
    remaining c.isRetract target ps k s =
      remaining c.isRetract target (apply collectors ps c) k s +
        if c.concerns k s then 1 else 0 := by
  have due_here : c.concerns k s = true → 0 < remaining c.isRetract target ps k s := by
    intro h
    obtain ⟨hk, hs⟩ := Change.concerns_iff.1 h
    rw [← remaining_congr hk hs]
    exact due_iff.1 due
  cases c with
  | retract key source =>
    simp only [remaining, Change.isRetract, if_true, copies_retract] at due_here ⊢
    split
    · next h =>
      have left := due_here h
      omega
    · rfl
  | insert key source =>
    simp only [remaining, Change.isRetract, Bool.false_eq_true, if_false,
      copies_insert] at due_here ⊢
    split
    · next h =>
      have left := due_here h
      omega
    · rfl

theorem remaining_of_none_due (none_due : ∀ c : Change, c.isRetract = retract → ¬ Due target ps c)
    (k s : Value) : remaining retract target ps k s = 0 := by
  cases retract with
  | true => exact Nat.sub_eq_zero_of_le (Nat.not_lt.1 (none_due (.retract k s) rfl))
  | false => exact Nat.sub_eq_zero_of_le (Nat.not_lt.1 (none_due (.insert k s) rfl))

/-- A run makes just the changes that remain, and whatever makes just these is a run. -/
theorem exhausts_iff : Exhausts collectors target retract ps cs ↔
    (∀ c ∈ cs, c.isRetract = retract) ∧
      ∀ k s : Value, cs.countP (·.concerns k s) = remaining retract target ps k s := by
  constructor
  · intro run
    induction run with
    | done none_due =>
      exact ⟨fun c hc => absurd hc List.not_mem_nil,
        fun k s => (remaining_of_none_due none_due k s).symm⟩
    | step kind due _ ih =>
      subst kind
      refine ⟨List.forall_mem_cons.2 ⟨rfl, ih.1⟩, fun k s => ?_⟩
      rw [List.countP_cons, ih.2, ← remaining_apply due]
  · rintro ⟨kinds, counts⟩
    induction cs generalizing ps with
    | nil =>
      refine .done fun c kind due => ?_
      subst kind
      exact Nat.ne_of_gt (due_iff.1 due) (counts c.subject.1 c.subject.2).symm
    | cons c cs ih =>
      obtain ⟨rfl, kinds⟩ := List.forall_mem_cons.1 kinds
      have due : Due target ps c := by
        rw [due_iff, ← counts, List.countP_cons, if_pos c.concerns_self]
        exact Nat.succ_pos _
      refine .step rfl due (ih kinds fun k s => ?_)
      have count := counts k s
      rw [List.countP_cons, remaining_apply due] at count
      exact Nat.add_right_cancel count

/-! ## Lengths -/

/-- How many copies there are too many. -/
def surplus (ps : Partitions) (target : GroupInputs) : Nat :=
  (ps.toList.map fun (key, partition) =>
    (partition.contributions.toList.map fun (source, undos) =>
      undos.length - wanted target key source).sum).sum

/-- How many copies there are too few. -/
def shortfall (ps : Partitions) (target : GroupInputs) : Nat :=
  (target.toList.map fun (key, input) =>
    (input.sources.toList.map fun (source, times) => times - ps.copies key source).sum).sum

theorem length_retractions (ps : Partitions) (tour : Tour) (target : GroupInputs) :
    (ps.retractions tour target).length = ps.surplus target := by
  rw [retractions, surplus, List.length_flatMap]
  refine congrArg List.sum (List.map_congr_left ?_)
  rintro ⟨key, p⟩ -
  refine tour.length_flatMap fun entry hentry => ?_
  rw [List.length_replicate, Partition.copies, Table.getD_of_mem hentry]

theorem length_insertions (ps : Partitions) (tour : Tour) (target : GroupInputs) :
    (ps.insertions tour target).length = ps.shortfall target := by
  rw [insertions, shortfall, List.length_flatMap]
  refine congrArg List.sum (List.map_congr_left ?_)
  rintro ⟨key, input⟩ -
  refine tour.length_flatMap fun entry hentry => ?_
  rw [List.length_replicate, GroupInput.times, Table.getD_of_mem hentry]

theorem exhausts_retractions (tour : Tour) :
    Exhausts collectors target true ps (ps.retractions tour target) :=
  exhausts_iff.2 ⟨fun _ => isRetract_of_mem_retractions, countP_retractions tour⟩

/-- Runs of one kind are about the same copies. -/
theorem Exhausts.perm {ds : List Change} (h : Exhausts collectors target retract ps cs)
    (h' : Exhausts collectors target retract ps ds) :
    (cs.map Change.about).Perm (ds.map Change.about) := by
  refine List.perm_iff_count.2 fun ⟨t, u⟩ => ?_
  obtain ⟨k, rfl⟩ := t.exists_value
  obtain ⟨s, rfl⟩ := u.exists_value
  rw [Change.count_about, Change.count_about, (exhausts_iff.1 h).2, (exhausts_iff.1 h').2]

theorem Exhausts.length_eq {ds : List Change} (h : Exhausts collectors target retract ps cs)
    (h' : Exhausts collectors target retract ps ds) : cs.length = ds.length := by
  rw [← List.length_map Change.about, (h.perm h').length_eq, List.length_map]

/-- When nothing is left to be taken back. -/
theorem Exhausts.copies_eq (h : Exhausts collectors target true ps cs) (k s : Value) :
    (cs.foldl (apply collectors) ps).copies k s =
      ps.copies k s - (ps.copies k s - wanted target k s) := by
  obtain ⟨kinds, counts⟩ := exhausts_iff.1 h
  rw [copies_retracts kinds, counts]
  rfl

/-- What is short then has been short from the start. -/
theorem exhausts_insertions (h : Exhausts collectors target true ps cs) (tour : Tour) :
    Exhausts collectors target false (cs.foldl (apply collectors) ps)
      (ps.insertions tour target) := by
  refine exhausts_iff.2 ⟨fun _ => isRetract_of_mem_insertions, fun k s => ?_⟩
  rw [countP_insertions]
  simp only [remaining, Bool.false_eq_true, if_false, h.copies_eq]
  omega

/-- On whatever tours the tuples are visited, that is one way to reconcile. -/
theorem reconciles_reconcile (collectors : List Collector) (tours : Tours) (ps : Partitions)
    (target : GroupInputs) : Reconciles collectors target ps (ps.retractions tours.back target)
      (ps.insertions tours.forth target) (reconcile collectors tours ps target) where
  drained := exhausts_retractions tours.back
  filled := exhausts_insertions (exhausts_retractions tours.back) tours.forth
  result := rfl

namespace Reconciles

variable {retracts inserts : List Change}
  (run : Reconciles collectors target ps retracts inserts ps')
include run

theorem copies_eq (k s : Value) : ps'.copies k s = wanted target k s := by
  obtain ⟨kinds, counts⟩ := exhausts_iff.1 run.filled
  rw [run.result, List.foldl_append, copies_inserts kinds, counts, run.drained.copies_eq]
  simp only [remaining, Bool.false_eq_true, if_false, run.drained.copies_eq]
  omega

theorem length_retracts : retracts.length = ps.surplus target := by
  rw [← length_retractions ps .ascending]
  exact run.drained.length_eq (exhausts_retractions .ascending)

theorem length_inserts : inserts.length = ps.shortfall target := by
  rw [← length_insertions ps .ascending]
  exact run.filled.length_eq (exhausts_insertions run.drained .ascending)

end Reconciles

/-! ## Reconciling again and again -/

/-- What holds of a run from one state of the groups to another. -/
structure Reconciled (collectors : List Collector) (target : GroupInputs) (ps : Partitions)
    (retracts inserts : List Change) (ps' : Partitions) : Prop where
  /-- the groups are those that are wanted -/
  keys : ∀ k : Value, ps'[k]?.isSome = target[k]?.isSome
  /-- each source tuple has as many undo entries as it is wanted, and no others have any -/
  entries : ∀ (k : Value) (p : Partition) (input : GroupInput), ps'[k]? = some p →
    target[k]? = some input →
      ∀ s : Value, p.contributions[s]?.map (·.length) = input.sources[s]?
  in_step : ∀ (k : Value) (p : Partition), ps'[k]? = some p → p.InStep collectors
  /-- no token is handed back that has been used -/
  unused : ∀ before k s after, retracts = before ++ .retract k s :: after →
    ∃ p, (before.foldl (apply collectors) ps)[k]? = some p ∧ p.CanRetract s
  retracts_length : retracts.length = ps.surplus target
  inserts_length : inserts.length = ps.shortfall target

theorem Sound.foldl_apply (h : Sound collectors ps) (cs : List Change) :
    Sound collectors (cs.foldl (apply collectors) ps) := by
  induction cs generalizing ps with
  | nil => exact h
  | cons c cs ih => exact ih (sound_iff_fed.2 ((sound_iff_fed.1 h).apply fun _ _ _ => trivial))

theorem Reached.sound (h : Reached collectors ps) : Sound collectors ps := by
  induction h with
  | empty => exact sound_empty collectors
  | reconcile _ _ run ih => exact run.result ▸ ih.foldl_apply _

/-- What is due to be taken back has tokens that have not been used. -/
theorem Sound.canRetract (h : Sound collectors ps) {k s : Value}
    (due : Due target ps (.retract k s)) : ∃ p, ps[k]? = some p ∧ p.CanRetract s := by
  have fed : 0 < ps.copies k s := Nat.zero_lt_of_lt due
  rw [copies] at fed
  cases hp : ps[k]? with
  | none =>
    rw [hp] at fed
    exact absurd fed (Nat.lt_irrefl 0)
  | some p =>
    rw [hp] at fed
    obtain ⟨feed, -, holds⟩ := h k p hp
    exact ⟨p, rfl, holds.canRetract fed⟩

theorem Exhausts.due {before after : List Change}
    (h : Exhausts collectors target retract ps cs) (split : cs = before ++ c :: after) :
    Due target (before.foldl (apply collectors) ps) c := by
  induction before generalizing ps cs with
  | nil =>
    subst split
    cases h with
    | step _ due _ => exact due
  | cons first before ih =>
    subst split
    cases h with
    | step _ _ rest => exact ih rest rfl

theorem copies_of_found {k : Value} {p : Partition} (hp : ps[k]? = some p) (s : Value) :
    ps.copies k s = p.copies s := by
  rw [copies, hp]
  rfl

theorem wanted_of_found {k : Value} {input : GroupInput} (hk : target[k]? = some input)
    (s : Value) : wanted target k s = input.sources[s]?.getD 0 := by
  rw [wanted, hk, ← Std.TreeMap.getD_eq_getD_getElem?]
  rfl

/-- A group has been fed some tuple. -/
theorem Sound.isSome_iff (h : Sound collectors ps) (k : Value) :
    ps[k]?.isSome = true ↔ ∃ s, 0 < ps.copies k s := by
  constructor
  · intro found
    obtain ⟨p, hp⟩ := Option.isSome_iff_exists.1 found
    obtain ⟨feed, hne, holds⟩ := h k p hp
    obtain ⟨entry, hentry⟩ := List.exists_mem_of_ne_nil _ hne
    refine ⟨entry.2, ?_⟩
    rw [copies_of_found hp, holds.copies_eq, List.count, List.countP_pos_iff]
    exact ⟨entry.2, List.mem_map_of_mem hentry, BEq.rfl⟩
  · rintro ⟨s, fed⟩
    cases hp : ps[k]? with
    | some p => rfl
    | none =>
      rw [copies, hp] at fed
      exact absurd fed (Nat.lt_irrefl 0)

/-- A group is wanted for some tuple. -/
theorem isSome_iff_of_positive (h : target.Positive) (k : Value) :
    target[k]?.isSome = true ↔ ∃ s, 0 < wanted target k s := by
  constructor
  · intro found
    obtain ⟨input, hk⟩ := Option.isSome_iff_exists.1 found
    obtain ⟨⟨s, hs⟩, occurs⟩ := h k input hk
    obtain ⟨times, hs⟩ := Option.isSome_iff_exists.1 hs
    refine ⟨s, ?_⟩
    rw [wanted_of_found hk, hs]
    exact occurs s times hs
  · rintro ⟨s, some_copy⟩
    cases hk : target[k]? with
    | some input => rfl
    | none =>
      rw [wanted, hk] at some_copy
      exact absurd some_copy (Nat.lt_irrefl 0)

/-- Counts that are positive where there are any. -/
theorem eq_of_getD_eq {o o' : Option Nat} (h : ∀ n, o = some n → 0 < n)
    (h' : ∀ n, o' = some n → 0 < n) (same : o.getD 0 = o'.getD 0) : o = o' := by
  cases o with
  | none =>
    cases o' with
    | none => rfl
    | some n => exact absurd same (Nat.ne_of_lt (h' n rfl))
  | some m =>
    cases o' with
    | none => exact absurd same (Nat.ne_of_gt (h m rfl))
    | some n => exact congrArg some same

theorem Sound.entries_positive (h : Sound collectors ps) {k : Value} {p : Partition}
    (hp : ps[k]? = some p) (s : Value) :
    ∀ n, p.contributions[s]?.map (·.length) = some n → 0 < n := by
  intro n hn
  obtain ⟨undos, hs, rfl⟩ := Option.map_eq_some_iff.1 hn
  obtain ⟨feed, -, holds⟩ := h k p hp
  obtain ⟨rfl, some_copy⟩ := nonempty?_eq_some.1 ((holds.contributions s).symm.trans hs)
  exact List.length_pos_of_ne_nil some_copy

/-- **Only the difference is fed, and the tokens stay in step.**  Whatever groups there are and
whatever is wanted, and in whatever order it is reconciled.  The program goes in one of the
orders, on whatever tours it visits the tuples. -/
theorem reconciled_of_reached (reached : Reached collectors ps) (positive : target.Positive) :
    (∀ retracts inserts ps', Reconciles collectors target ps retracts inserts ps' →
      Reconciled collectors target ps retracts inserts ps') ∧
    ∀ tours, Reconciles collectors target ps (ps.retractions tours.back target)
      (ps.insertions tours.forth target) (reconcile collectors tours ps target) := by
  refine ⟨fun retracts inserts ps' run => ?_,
    fun tours => reconciles_reconcile collectors tours ps target⟩
  have sound := reached.sound
  have sound' : Sound collectors ps' := run.result ▸ sound.foldl_apply _
  refine ⟨fun k => ?_, fun k p input hp hk s => ?_, fun k p hp => ?_,
    fun before k s after split => ?_, run.length_retracts, run.length_inserts⟩
  · rw [Bool.eq_iff_iff, sound'.isSome_iff, isSome_iff_of_positive positive]
    simp only [run.copies_eq]
  · refine eq_of_getD_eq (sound'.entries_positive hp s) ((positive k input hk).2 s) ?_
    rw [← Partition.copies_eq, ← copies_of_found hp, run.copies_eq, wanted_of_found hk]
  · obtain ⟨feed, -, holds⟩ := sound' k p hp
    exact holds.inStep
  · exact (sound.foldl_apply before).canRetract (run.drained.due split)

/-- A group loses one of its copies and all of another tuple, and a second group is made. -/
theorem reconciled_of_reached_moved :
    let collectors : List Collector := [.count, ⟨.average, valueAt 0⟩]
    let row : String → Int64 → KeyedSource := fun key n => ⟨.string key, .tuple [.int n], []⟩
    let before := [row "day" 1, row "day" 1, row "day" 2]
    let target := groupInputs [row "night" 2, row "day" 1]
    let tours : Tours := ⟨.ascending, .descending⟩
    let ps := reconcile collectors tours ∅ (groupInputs before)
    Reached collectors ps ∧ target.Positive ∧
      Reconciled collectors target ps (ps.retractions tours.back target)
        (ps.insertions tours.forth target) (reconcile collectors tours ps target) ∧
      ps.surplus target = 2 ∧ ps.shortfall target = 1 := by
  intro collectors row before target tours ps
  have reached : Reached collectors ps := .reconcile .empty (positive_groupInputs before)
    (reconciles_reconcile collectors tours ∅ (groupInputs before))
  have positive := positive_groupInputs [row "night" 2, row "day" 1]
  obtain ⟨every, runs⟩ := reconciled_of_reached reached positive
  exact ⟨reached, positive, every _ _ _ (runs tours), by decide +kernel, by decide +kernel⟩

end Partitions

end MatchAlgebra
