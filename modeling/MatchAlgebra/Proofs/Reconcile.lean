import Mathlib.Data.List.Induction
import MatchAlgebra.Proofs.Congruence
import MatchAlgebra.Proofs.Partition

/-!
# Reconciling reaches what is wanted

Only the difference between what has been fed and what is wanted is fed.  Counting copies shows that
this is enough:

    (reconcile cs tours ps target).copies k s = wanted target k s   (copies_reconcile)

whatever is in the partitions before and in whatever order the tuples are visited.  What is wanted
is the number of rows with this key and source tuple (`wanted_groupInputs`), and a partition is
there exactly if some row has its key (`reconcile_isSome_iff`).
-/

namespace MatchAlgebra

/-- What each entry contributes to a count, if only the entry of one key contributes. -/
theorem Table.countP_flatMap_toList {β γ : Type} {t : ValueTable β} {v : Value}
    {f : Value × β → List γ} {p : γ → Bool} {n : β → Nat}
    (hit : ∀ k b, k == v → (f (k, b)).countP p = n b)
    (miss : ∀ k b, ¬ k == v → (f (k, b)).countP p = 0) :
    (t.toList.flatMap f).countP p = (t[v]?.map n).getD 0 := by
  rw [List.countP_flatMap]
  have others : ∀ l : List (Value × β), (∀ e ∈ l, ¬ e.1 == v) →
      (l.map (List.countP p ∘ f)).sum = 0 := by
    intro l hl
    rw [List.sum_eq_zero]
    intro m hm
    obtain ⟨e, he, rfl⟩ := List.mem_map.1 hm
    exact miss e.1 e.2 (hl e he)
  cases hv : t[v]? with
  | none =>
    refine others _ fun e he heq => ?_
    have : t[v]? = some e.2 :=
      Std.TreeMap.getElem?_eq_some_iff_exists_compare_eq_eq_and_mem_toList.2
        ⟨e.1, (Value.compare_eq_iff ..).2 (BEq.symm heq), he⟩
    rw [hv] at this
    cases this
  | some b =>
    obtain ⟨k, hk, hmem⟩ :=
      Std.TreeMap.getElem?_eq_some_iff_exists_compare_eq_eq_and_mem_toList.1 hv
    have hkv : k == v := BEq.symm ((Value.compare_eq_iff ..).1 hk)
    obtain ⟨before, after, hsplit⟩ := List.append_of_mem hmem
    have ordered := t.ordered_keys_toList
    rw [hsplit, List.pairwise_append, List.pairwise_cons] at ordered
    obtain ⟨-, ⟨habove, -⟩, hbelow⟩ := ordered
    have ne_of_lt : ∀ {a b : Value}, a.compare b = .lt → ¬ a == b := fun hlt heq => by
      rw [(Value.compare_eq_iff ..).2 heq] at hlt
      cases hlt
    rw [hsplit, List.map_append, List.sum_append, List.map_cons, List.sum_cons, others before,
      others after, Function.comp_apply, hit k b hkv]
    · simp
    · exact fun e he heq => ne_of_lt (habove e he) (BEq.trans hkv (BEq.symm heq))
    · exact fun e he heq =>
        ne_of_lt (hbelow e he _ List.mem_cons_self) (BEq.trans heq (BEq.symm hkv))

/-- The tuples of each group the other way round. -/
def Tour.descending : Tour := ⟨fun _ sources => sources.reverse, fun _ _ => List.reverse_perm _⟩

def Visits.descending : Visits := fun _ => ⟨.descending, .descending⟩

/-- What the visits of a tour contribute to a count, if only those to one tuple contribute. -/
theorem Tour.countP_flatMap {β γ : Type} (tour : Tour) {key v : Value} {t : ValueTable β}
    {f : Value → List γ} {p : γ → Bool} {n : Nat}
    (hit : ∀ source, source == v → (f source).countP p = n)
    (miss : ∀ source, ¬ source == v → (f source).countP p = 0)
    (absent : t[v]? = none → n = 0) :
    ((tour.order key t.keys).flatMap f).countP p = n := by
  rw [((tour.perm key t.keys).flatMap_right f).countP_eq, ← Std.TreeMap.map_fst_toList_eq_keys,
    List.flatMap_map, Table.countP_flatMap_toList (v := v) (n := fun _ => n)
      (fun k _ => hit k) (fun k _ => miss k)]
  cases hv : t[v]? with
  | none => exact (absent hv).symm
  | some b => rfl

/-! ## What is wanted -/

/-- The rows of one group. -/
def membersOf (key : Value) (rows : List KeyedSource) : List KeyedSource :=
  rows.filter (·.key == key)

theorem membersOf_congr {k k' : Value} (h : k == k') (rows : List KeyedSource) :
    membersOf k rows = membersOf k' rows :=
  List.filter_congr fun _ _ => Bool.eq_iff_iff.2 ⟨(BEq.trans · h), (BEq.trans · (BEq.symm h))⟩

/-- The input counts the source tuples of the rows and has their facts. -/
structure GroupInput.Holds (input : GroupInput) (rows : List KeyedSource) : Prop where
  sources : Bag.Holds ⟨input.sources⟩ (rows.map (·.source))
  facts : input.facts = HandleSet.addAll ∅ (rows.flatMap (·.facts))

namespace GroupInput.Holds

theorem empty : GroupInput.empty.Holds [] := ⟨Bag.holds_empty, rfl⟩

theorem add {input : GroupInput} {rows : List KeyedSource} (h : input.Holds rows)
    (row : KeyedSource) : (input.add row.source row.facts).Holds (rows ++ [row]) where
  sources := by
    refine (h.sources.insert (v := row.source)).of_perm ?_
    rw [List.map_append, List.map_append]
    exact (List.perm_append_singleton ..).symm
  facts := by
    rw [List.flatMap_append, List.flatMap_singleton, HandleSet.addAll, List.foldl_append]
    exact congrArg (HandleSet.addAll · row.facts) h.facts

theorem times_eq {input : GroupInput} {rows : List KeyedSource} (h : input.Holds rows)
    (s : Value) : input.times s = (rows.map (·.source)).count s := by
  rw [times, Std.TreeMap.getD_eq_getD_getElem?]
  exact (congrArg (·.getD 0) (h.sources s)).trans (Bag.getD_positive? _)

end GroupInput.Holds

theorem groupInputs_concat (rows : List KeyedSource) (row : KeyedSource) (k : Value) :
    (groupInputs (rows ++ [row]))[k]? =
      if row.key == k then
        some (((groupInputs rows)[k]?.getD .empty).add row.source row.facts)
      else (groupInputs rows)[k]? := by
  rw [groupInputs, List.foldl_append, List.foldl_cons, List.foldl_nil,
    Table.getElem?_change_value]
  split
  · next h => rw [Table.getElem?_congr_key _ h]; rfl
  · rfl

theorem membersOf_concat (rows : List KeyedSource) (row : KeyedSource) (k : Value) :
    membersOf k (rows ++ [row]) =
      if row.key == k then membersOf k rows ++ [row] else membersOf k rows := by
  rw [membersOf, List.filter_append, List.filter_singleton]
  split <;> simp [membersOf, *]

theorem groupInputs_holds (rows : List KeyedSource) (k : Value) :
    ((groupInputs rows)[k]?.getD .empty).Holds (membersOf k rows) := by
  induction rows using List.reverseRecOn with
  | nil =>
    rw [groupInputs, List.foldl_nil, Std.TreeMap.getElem?_emptyc]
    exact GroupInput.Holds.empty
  | append_singleton rows row ih =>
    rw [groupInputs_concat, membersOf_concat]
    split
    · exact ih.add row
    · exact ih

/-- The facts of a group are those of its rows. -/
theorem facts_groupInputs (rows : List KeyedSource) (k : Value) :
    ((groupInputs rows)[k]?.map (·.facts.toList)).getD [] =
      HandleSet.ascending ((membersOf k rows).flatMap (·.facts)) := by
  rw [HandleSet.ascending, ← (groupInputs_holds rows k).facts]
  cases (groupInputs rows)[k]? with
  | none => rfl
  | some input => rfl

namespace Partitions

theorem wanted_groupInputs (rows : List KeyedSource) (k s : Value) :
    wanted (groupInputs rows) k s = ((membersOf k rows).map (·.source)).count s := by
  rw [← (groupInputs_holds rows k).times_eq, wanted]
  cases (groupInputs rows)[k]? with
  | none => exact (Std.TreeMap.getD_emptyc).symm
  | some input => rfl

theorem wanted_congr {target : GroupInputs} {k k' s s' : Value} (hk : k == k') (hs : s == s') :
    wanted target k s = wanted target k' s' := by
  rw [wanted, wanted, Table.getElem?_congr_key target hk]
  congr 2
  funext input
  rw [GroupInput.times, GroupInput.times]
  exact Std.TreeMap.getD_congr ((Value.compare_eq_iff ..).2 hs)

/-! ## One change -/

theorem copies_congr (ps : Partitions) {k k' s s' : Value} (hk : k == k') (hs : s == s') :
    ps.copies k s = ps.copies k' s' := by
  rw [copies, copies, Table.getElem?_congr_key ps hk]
  congr 2
  funext p
  rw [Partition.copies_eq, Partition.copies_eq, Table.getElem?_congr_key _ hs]

end Partitions

namespace Change

def isRetract : Change → Bool
  | .retract .. => true
  | .insert .. => false

/-- Whether the change is about copies of a source tuple of a group. -/
def concerns (k s : Value) : Change → Bool
  | .retract key source => key == k && source == s
  | .insert key source => key == k && source == s

end Change

namespace Partitions

variable {collectors : List Collector} {tours : Tours} {ps : Partitions} {target : GroupInputs}

theorem copies_retract (key source k s : Value) :
    (apply collectors ps (.retract key source)).copies k s =
      ps.copies k s - if (Change.retract key source).concerns k s then 1 else 0 := by
  simp only [Change.concerns, Bool.and_eq_true]
  unfold apply
  dsimp only
  split
  · next p hkey =>
    have same : key == k → ps.copies k s = p.copies s := fun h => by
      rw [copies, ← Table.getElem?_congr_key ps h, hkey]
      rfl
    split
    · next hempty =>
      rw [copies, Table.getElem?_erase_value]
      by_cases hk : key == k
      · have := Partition.copies_of_isEmpty hempty s
        rw [Partition.copies_retract] at this
        simp [hk, same hk, this]
      · simp [hk, copies]
    · rw [copies, Table.getElem?_change_value]
      by_cases hk : key == k
      · simp [hk, same hk, Partition.copies_retract]
      · simp [hk, copies]
  · next hkey =>
    split
    · next h =>
      rw [← copies_congr ps h.1 h.2, copies, hkey]
      rfl
    · rfl

theorem copies_insert (key source k s : Value) :
    (apply collectors ps (.insert key source)).copies k s =
      ps.copies k s + if (Change.insert key source).concerns k s then 1 else 0 := by
  simp only [Change.concerns, Bool.and_eq_true]
  rw [apply, copies, Table.getElem?_change_value]
  by_cases hk : key == k
  · rw [if_pos hk, Table.getElem?_congr_key ps hk, copies]
    cases ps[k]? with
    | none => simp [hk, Partition.copies_insert, Partition.copies_start]
    | some p => simp [hk, Partition.copies_insert]
  · simp [hk, copies]

/-! ## All changes -/

theorem copies_retracts {changes : List Change} (h : ∀ c ∈ changes, c.isRetract = true)
    (ps : Partitions) (k s : Value) :
    (changes.foldl (apply collectors) ps).copies k s =
      ps.copies k s - changes.countP (·.concerns k s) := by
  induction changes generalizing ps with
  | nil => rfl
  | cons c changes ih =>
    rw [List.foldl_cons, ih (fun c hc => h c (List.mem_cons_of_mem _ hc)), List.countP_cons]
    cases c with
    | retract key source => rw [copies_retract, Nat.sub_sub, Nat.add_comm]
    | insert key source => exact absurd (h _ List.mem_cons_self) Bool.false_ne_true

theorem copies_inserts {changes : List Change} (h : ∀ c ∈ changes, c.isRetract = false)
    (ps : Partitions) (k s : Value) :
    (changes.foldl (apply collectors) ps).copies k s =
      ps.copies k s + changes.countP (·.concerns k s) := by
  induction changes generalizing ps with
  | nil => rfl
  | cons c changes ih =>
    rw [List.foldl_cons, ih (fun c hc => h c (List.mem_cons_of_mem _ hc)), List.countP_cons]
    cases c with
    | retract key source => exact absurd (h _ List.mem_cons_self).symm Bool.false_ne_true
    | insert key source => rw [copies_insert, Nat.add_assoc, Nat.add_comm (ite ..)]

theorem isRetract_of_mem_retractions {tour : Tour} {c : Change}
    (h : c ∈ ps.retractions tour target) : c.isRetract = true := by
  simp only [retractions, List.mem_flatMap, List.mem_replicate] at h
  obtain ⟨_, -, _, -, -, rfl⟩ := h
  rfl

theorem isRetract_of_mem_insertions {tour : Tour} {c : Change}
    (h : c ∈ ps.insertions tour target) : c.isRetract = false := by
  simp only [insertions, List.mem_flatMap, List.mem_replicate] at h
  obtain ⟨_, -, _, -, -, rfl⟩ := h
  rfl

theorem countP_retractions (tour : Tour) (k s : Value) :
    (ps.retractions tour target).countP (·.concerns k s) =
      ps.copies k s - wanted target k s := by
  rw [retractions, Table.countP_flatMap_toList (v := k)
    (n := fun p => p.copies s - wanted target k s)]
  · rw [copies]
    cases ps[k]? with
    | none => exact (Nat.zero_sub _).symm
    | some p => rfl
  · intro key p hk
    refine tour.countP_flatMap (v := s) (fun source hs => ?_) (fun source hs => ?_) fun hnone => ?_
    · have : p.copies source = p.copies s := by
        rw [Partition.copies_eq, Partition.copies_eq, Table.getElem?_congr_key _ hs]
      simp [List.countP_replicate, Change.concerns, hk, hs, wanted_congr hk hs, this]
    · simp [List.countP_replicate, Change.concerns, hs]
    · rw [Partition.copies_eq, hnone]
      exact Nat.zero_sub _
  · intro key p hk
    simp [List.countP_flatMap, List.countP_replicate, Change.concerns, hk, Function.comp_def]

theorem countP_insertions (tour : Tour) (k s : Value) :
    (ps.insertions tour target).countP (·.concerns k s) =
      wanted target k s - ps.copies k s := by
  rw [insertions, Table.countP_flatMap_toList (v := k)
    (n := fun input => input.times s - ps.copies k s)]
  · rw [wanted]
    cases target[k]? with
    | none => exact (Nat.zero_sub _).symm
    | some input => rfl
  · intro key input hk
    refine tour.countP_flatMap (v := s) (fun source hs => ?_) (fun source hs => ?_) fun hnone => ?_
    · have : input.times source = input.times s :=
        Std.TreeMap.getD_congr ((Value.compare_eq_iff ..).2 hs)
      simp [List.countP_replicate, Change.concerns, hk, hs, copies_congr ps hk hs, this]
    · simp [List.countP_replicate, Change.concerns, hs]
    · rw [GroupInput.times, Std.TreeMap.getD_eq_getD_getElem?, hnone]
      exact Nat.zero_sub _
  · intro key input hk
    simp [List.countP_flatMap, List.countP_replicate, Change.concerns, hk, Function.comp_def]

theorem copies_reconcile (collectors : List Collector) (tours : Tours) (ps : Partitions)
    (k s : Value) : (reconcile collectors tours ps target).copies k s = wanted target k s := by
  rw [reconcile, changes, List.foldl_append,
    copies_inserts fun _ => isRetract_of_mem_insertions,
    copies_retracts fun _ => isRetract_of_mem_retractions, countP_retractions, countP_insertions]
  omega

/-! ## What has been fed -/

/-- Every group is held.  What has been fed to it, at least one tuple, is as told. -/
def Fed (Q : Value → Prop) (collectors : List Collector) (ps : Partitions) : Prop :=
  ∀ (k : Value) (p : Partition), ps[k]? = some p →
    ∃ feed : Feed, feed ≠ [] ∧ (∀ entry ∈ feed, Q entry.2) ∧ p.Holds collectors feed

variable {Q : Value → Prop}

theorem fed_empty (collectors : List Collector) : Fed Q collectors ∅ := by
  intro k p hp
  rw [Std.TreeMap.getElem?_emptyc] at hp
  cases hp

namespace Fed

theorem imp {R : Value → Prop} (h : Fed Q collectors ps) (hQ : ∀ source, Q source → R source) :
    Fed R collectors ps := by
  intro k p hp
  obtain ⟨feed, hne, told, holds⟩ := h k p hp
  exact ⟨feed, hne, fun entry hentry => hQ _ (told entry hentry), holds⟩

theorem change {k : Value} {p : Partition} {feed : Feed} {f : Option Partition → Partition}
    (h : Fed Q collectors ps) (hne : feed ≠ []) (told : ∀ entry ∈ feed, Q entry.2)
    (hp : p.Holds collectors feed) (hf : f ps[k]? = p) :
    Fed Q collectors (Table.change ps k f) := by
  intro k' p' hp'
  rw [Table.getElem?_change_value] at hp'
  split at hp'
  · cases hp'
    exact ⟨feed, hne, told, hf ▸ hp⟩
  · exact h k' p' hp'

theorem apply (h : Fed Q collectors ps) {c : Change}
    (hc : ∀ key source, c = .insert key source → Q source) :
    Fed Q collectors (Partitions.apply collectors ps c) := by
  cases c with
  | retract key source =>
    unfold Partitions.apply
    dsimp only
    split
    · next p hp =>
      obtain ⟨feed, -, told, holds⟩ := h key p hp
      obtain ⟨feed', older, holds'⟩ := holds.retract source
      split
      · intro k' p' hp'
        rw [Table.getElem?_erase_value] at hp'
        split at hp'
        · cases hp'
        · exact h k' p' hp'
      · next hne =>
        exact h.change (fun heq => hne (holds'.isEmpty_iff.2 heq))
          (fun entry hentry => told entry (older.subset hentry)) holds' rfl
    · exact h
  | insert key source =>
    have : ∃ feed : Feed, (∀ entry ∈ feed, Q entry.2) ∧
        (ps[key]?.getD (.start collectors)).Holds collectors feed := by
      cases hp : ps[key]? with
      | none => exact ⟨[], fun _ hentry => absurd hentry List.not_mem_nil, .start collectors⟩
      | some p =>
        obtain ⟨feed, -, told, holds⟩ := h key p hp
        exact ⟨feed, told, holds⟩
    obtain ⟨feed, told, holds⟩ := this
    obtain ⟨token, holds'⟩ := holds.insert source
    exact h.change (List.cons_ne_nil _ _)
      (List.forall_mem_cons.2 ⟨hc key source rfl, told⟩) holds' rfl

theorem reconcile (h : Fed Q collectors ps)
    (told : ∀ key source, .insert key source ∈ ps.changes tours target → Q source) :
    Fed Q collectors (Partitions.reconcile collectors tours ps target) := by
  rw [Partitions.reconcile]
  generalize ps.changes tours target = changes at told
  induction changes generalizing ps with
  | nil => exact h
  | cons c changes ih =>
    refine ih (h.apply fun key source hc => told key source (hc ▸ List.mem_cons_self)) ?_
    exact fun key source hc => told key source (List.mem_cons_of_mem _ hc)

end Fed

/-! ## Sound partitions -/

/-- Every group is held, and holds at least one tuple. -/
def Sound (collectors : List Collector) (ps : Partitions) : Prop :=
  ∀ (k : Value) (p : Partition), ps[k]? = some p → ∃ feed, feed ≠ [] ∧ p.Holds collectors feed

theorem sound_iff_fed : Sound collectors ps ↔ Fed (fun _ => True) collectors ps := by
  simp [Sound, Fed]

theorem sound_empty (collectors : List Collector) : Sound collectors ∅ :=
  sound_iff_fed.2 (fed_empty collectors)

theorem Sound.reconcile (h : Sound collectors ps) (target : GroupInputs) :
    Sound collectors (Partitions.reconcile collectors tours ps target) :=
  sound_iff_fed.2 ((sound_iff_fed.1 h).reconcile fun _ _ _ => trivial)

/-! ## After reconciling -/

/-- The partition of a key has been fed the tuples of the rows with that key. -/
theorem perm_feed (rows : List KeyedSource) (k : Value) {p : Partition} {feed : Feed}
    (hp : (reconcile collectors tours ps (groupInputs rows))[k]? = some p)
    (holds : p.Holds collectors feed) :
    ((feed.map (·.2)).map Value.sense).Perm
      (((membersOf k rows).map (·.source)).map Value.sense) := by
  refine List.perm_iff_count.2 fun t => ?_
  obtain ⟨s, rfl⟩ := t.exists_value
  rw [Value.count_senses, Value.count_senses, ← holds.copies_eq, ← wanted_groupInputs,
    ← copies_reconcile collectors tours ps, copies, hp]
  rfl

section
variable (h : Sound collectors ps) (rows : List KeyedSource) (k : Value)
include h

theorem perm_members {p : Partition}
    (hp : (reconcile collectors tours ps (groupInputs rows))[k]? = some p) :
    ∃ feed, feed ≠ [] ∧ p.Holds collectors feed ∧
      ((feed.map (·.2)).map Value.sense).Perm
        (((membersOf k rows).map (·.source)).map Value.sense) := by
  obtain ⟨feed, hne, holds⟩ := h.reconcile _ k p hp
  exact ⟨feed, hne, holds, perm_feed rows k hp holds⟩

theorem reconcile_isSome_iff :
    (reconcile collectors tours ps (groupInputs rows))[k]?.isSome = true ↔
      membersOf k rows ≠ [] := by
  constructor
  · intro hsome hnil
    obtain ⟨p, hp⟩ := Option.isSome_iff_exists.1 hsome
    obtain ⟨feed, hne, -, perm⟩ := perm_members h rows k hp
    rw [hnil] at perm
    exact hne (List.map_eq_nil_iff.1 (List.map_eq_nil_iff.1 (List.perm_nil.1 perm)))
  · intro hne
    obtain ⟨row, hrow⟩ := List.exists_mem_of_ne_nil _ hne
    cases hp : (reconcile collectors tours ps (groupInputs rows))[k]? with
    | some p => rfl
    | none =>
      have : wanted (groupInputs rows) k row.source = 0 := by
        rw [← copies_reconcile collectors tours ps, copies, hp]
        rfl
      rw [wanted_groupInputs, List.count, List.countP_eq_zero] at this
      exact absurd BEq.rfl (this _ (List.mem_map.2 ⟨row, hrow, rfl⟩))

end

/-- A partition measures the tuples of its rows. -/
theorem results_reconcile (h : Sound collectors ps) (hc : ∀ c ∈ collectors, c.Respects)
    (rows : List KeyedSource) {k : Value} {p : Partition}
    (hp : (reconcile collectors tours ps (groupInputs rows))[k]? = some p) :
    p.fused.results.map Value.sense =
      collectors.map fun c => (c.over ((membersOf k rows).map (·.source.components))).sense := by
  obtain ⟨feed, -, ⟨⟨next, fused⟩, -⟩, perm⟩ := perm_members h rows k hp
  rw [fused.senses_results fun c hmem => (hc c hmem).lawful]
  refine List.map_congr_left fun c hmem => ?_
  have := (hc c hmem).over perm
  rw [← Feed.ledger_tuples, List.map_map] at this
  exact this

theorem membersOf_ne_nil_iff {rows : List KeyedSource} {k : Value} :
    membersOf k rows ≠ [] ↔ k.sense ∈ (rows.map (·.key)).map Value.sense := by
  rw [Ne, membersOf, List.filter_eq_nil_iff, List.map_map, List.mem_map, not_forall]
  simp only [not_forall, Decidable.not_not, exists_prop, Function.comp_apply, Value.sense_inj]

/-- The groups in ascending order of their keys, each with the values of its collectors over the
tuples of its rows: neither what was in the partitions before nor the order in which the tuples were
visited shows. -/
theorem entries_reconcile (h : Sound collectors ps) (hc : ∀ c ∈ collectors, c.Respects)
    (rows : List KeyedSource) :
    Table.entries (reconcile collectors tours ps (groupInputs rows))
        (fun p => p.fused.results.map Value.sense) =
      (Value.sort (Value.distinct (rows.map (·.key)))).map fun k =>
        (k.sense, collectors.map fun c =>
          (c.over ((membersOf k rows).map (·.source.components))).sense) := by
  refine Table.entries_eq_of_mem_iff ?_ fun v rs => ?_
  · have := Value.ascending_senses_sort_distinct (rows.map (·.key))
    rw [List.pairwise_map] at this
    exact List.pairwise_map.2 this
  · have listed : v.sense ∈ (Value.sort (Value.distinct (rows.map (·.key)))).map Value.sense ↔
        (reconcile collectors tours ps (groupInputs rows))[v]?.isSome = true := by
      rw [Value.mem_senses_sort_distinct, reconcile_isSome_iff h, membersOf_ne_nil_iff]
    constructor
    · intro hmem
      obtain ⟨k, hk, heq⟩ := List.mem_map.1 hmem
      obtain ⟨hkv, rfl⟩ := Prod.mk.inj heq
      obtain ⟨p, hp⟩ := Option.isSome_iff_exists.1 (listed.1 (List.mem_map.2 ⟨k, hk, hkv⟩))
      rw [hp, Option.map_some, results_reconcile h hc rows hp,
        membersOf_congr (Value.sense_inj.1 hkv)]
    · intro hv
      obtain ⟨p, hp, rfl⟩ := Option.map_eq_some_iff.1 hv
      obtain ⟨k, hk, hkv⟩ := List.mem_map.1 (listed.2 (hp ▸ rfl))
      refine List.mem_map.2 ⟨k, hk, ?_⟩
      rw [results_reconcile h hc rows hp, membersOf_congr (Value.sense_inj.1 hkv), hkv]

end Partitions

end MatchAlgebra
