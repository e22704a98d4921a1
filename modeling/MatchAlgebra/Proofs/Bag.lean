import MatchAlgebra.Aggregate.Bag
import MatchAlgebra.Proofs.Entries

/-!
# What a bag holds

A bag holds a list of values if it counts each of them as often as the list has it, in whatever
order and spelling:

    bag.Holds vs  →  (bag.insert v).Holds (v :: vs)                 (Holds.insert)
    bag.Holds (v :: vs)  →  (bag.erase v).Holds vs                  (Holds.erase)

What a bag answers depends on the senses of the values alone: its list of values is the sorted list,
and its entries are the different values in ascending order, each with its count (`Holds.entries`).
-/

namespace MatchAlgebra

theorem Value.count_senses (v : Value) (vs : List Value) :
    (vs.map Value.sense).count v.sense = vs.count v := by
  rw [List.count, List.count, List.countP_map]
  congr 1
  funext w
  exact Value.sense_beq w v

theorem Value.count_congr {v w : Value} (h : v == w) (vs : List Value) :
    vs.count v = vs.count w := by
  rw [← count_senses, ← count_senses, sense_inj.2 h]

/-- Equal values convert to the same floating-point number: only the spelling of decimals differs,
and they do not convert. -/
theorem Value.toBinary64_congr (v w : Value) (h : v == w) : v.toBinary64 = w.toBinary64 := by
  cases v <;> cases w <;> try cases h <;> done
  case bool.bool a b => rw [eq_of_beq (show a == b from h)]
  case int.int a b => rw [eq_of_beq (show a == b from h)]
  case float.float a b => rw [of_decide_eq_true (show decide (a = b) from h)]
  all_goals rfl

namespace Bag

/-- A count as a table keeps it: nothing for zero. -/
def positive? (n : Nat) : Option Nat := if n = 0 then none else some n

theorem positive?_succ (n : Nat) : positive? (n + 1) = some (n + 1) := rfl

theorem getD_positive? (n : Nat) : (positive? n).getD 0 = n := by
  unfold positive?
  split
  · next h => exact h.symm
  · rfl

/-- The bag counts every value as often as the list has it. -/
def Holds (bag : Bag) (vs : List Value) : Prop :=
  ∀ v : Value, bag.counts[v]? = positive? (vs.count v)

theorem holds_empty : Bag.empty.Holds [] := fun v => by
  rw [empty, List.count_nil]
  exact Std.TreeMap.getElem?_emptyc

namespace Holds

variable {bag : Bag} {v : Value} {vs ws : List Value}

theorem of_perm (h : bag.Holds vs) (hp : (vs.map Value.sense).Perm (ws.map Value.sense)) :
    bag.Holds ws := fun v => by
  rw [h v, ← Value.count_senses, hp.count_eq, Value.count_senses]

theorem insert (h : bag.Holds vs) : (bag.insert v).Holds (v :: vs) := fun w => by
  show (bag.counts.change v _)[w]? = _
  rw [Table.getElem?_change_value, List.count_cons, h v, h w, getD_positive?]
  by_cases hvw : v == w
  · rw [if_pos hvw, if_pos hvw, Value.count_congr hvw, positive?_succ]
  · rw [if_neg hvw, if_neg hvw, Nat.add_zero]

theorem erase (h : bag.Holds (v :: vs)) : (bag.erase v).Holds vs := fun w => by
  have hv : bag.counts[v]? = some (vs.count v + 1) := by
    rw [h v, List.count_cons, if_pos BEq.rfl, positive?_succ]
  have hw : bag.counts[w]? = positive? (vs.count w + if v == w then 1 else 0) := by
    rw [h w, List.count_cons]
  unfold Bag.erase
  rw [hv]
  dsimp only
  split
  · next hone =>
    rw [Table.getElem?_erase_value, hw]
    by_cases hvw : v == w
    · have : vs.count w = 0 := by rw [← Value.count_congr hvw]; omega
      rw [if_pos hvw, this]
      rfl
    · rw [if_neg hvw, if_neg hvw, Nat.add_zero]
  · next hone =>
    rw [Table.getElem?_change_value, hw]
    by_cases hvw : v == w
    · rw [if_pos hvw, ← Value.count_congr hvw vs, Nat.add_sub_cancel]
      exact (if_neg (by omega)).symm
    · rw [if_neg hvw, if_neg hvw, Nat.add_zero]

/-- The different values in ascending order, each with its count. -/
theorem entries (h : bag.Holds vs) : Table.entries bag.counts id =
    (Value.sort (Value.distinct vs)).map fun v => (v.sense, vs.count v) := by
  apply Table.entries_eq_of_mem_iff
  · rw [List.pairwise_map]
    exact List.pairwise_map.1 (Value.ascending_senses_sort_distinct vs)
  · intro v c
    rw [h v, Option.map_id, id, List.mem_map]
    constructor
    · rintro ⟨u, hu, heq⟩
      obtain ⟨huv, rfl⟩ := Prod.mk.inj heq
      have hmem := Value.mem_senses_sort_distinct.1 (List.mem_map_of_mem hu)
      rw [Value.count_congr (Value.sense_inj.1 huv)]
      rw [huv, ← List.count_pos_iff, Value.count_senses] at hmem
      exact if_neg (by omega)
    · intro hc
      unfold positive? at hc
      split at hc
      · cases hc
      · next hpos =>
        rw [← Value.count_senses, List.count_eq_zero, not_not] at hpos
        obtain ⟨u, hu, huv⟩ := List.mem_map.1 (Value.mem_senses_sort_distinct.2 hpos)
        refine ⟨u, hu, ?_⟩
        rw [huv, Value.count_congr (Value.sense_inj.1 huv), Option.some.inj hc]

/-! ### Answers -/

theorem senses_keys (h : bag.Holds vs) :
    bag.counts.keys.map Value.sense = (Value.sort (Value.distinct vs)).map Value.sense := by
  have := congrArg (List.map Prod.fst) h.entries
  simpa [Table.entries, ← Std.TreeMap.map_fst_toList_eq_keys, Function.comp_def] using this

theorem distinct_eq (h : bag.Holds vs) : bag.distinct = (Value.distinct vs).length := by
  have := congrArg List.length h.senses_keys
  rwa [List.length_map, List.length_map, Value.sort, List.length_mergeSort,
    Std.TreeMap.length_keys] at this

theorem mem_senses_keys (h : bag.Holds vs) (s : Sense) :
    s ∈ bag.counts.keys.map Value.sense ↔ s ∈ (Value.sort vs).map Value.sense := by
  rw [h.senses_keys, Value.mem_senses_sort_distinct, (Value.perm_senses_sort vs).mem_iff]

theorem least?_eq (h : bag.Holds vs) :
    bag.least?.map Value.sense = (Value.sort vs).head?.map Value.sense := by
  rw [least?, Std.TreeMap.minKey?_eq_head?_keys, ← List.head?_map, ← List.head?_map]
  refine head?_eq_of_mem_iff (fun a b => le_antisymm) ?_ (Value.ascending_senses_sort vs)
    h.mem_senses_keys
  rw [h.senses_keys]
  exact Value.ascending_senses_sort _

theorem mem_iff (h : bag.Holds vs) : v ∈ bag.counts ↔ v.sense ∈ vs.map Value.sense := by
  rw [Std.TreeMap.mem_iff_isSome_getElem?, h v, ← List.count_pos_iff, Value.count_senses]
  unfold positive?
  split <;> simp <;> omega

theorem greatest?_eq (h : bag.Holds vs) :
    bag.greatest?.map Value.sense = (Value.sort vs).getLast?.map Value.sense := by
  rw [← List.getLast?_map]
  refine Option.ext fun s => ?_
  rw [getLast?_eq_some_iff_of_ascending (Value.ascending_senses_sort vs)]
  simp only [(Value.perm_senses_sort vs).mem_iff]
  have greatest : ∀ {m}, bag.greatest? = some m →
      m.sense ∈ vs.map Value.sense ∧ ∀ t ∈ vs.map Value.sense, t ≤ m.sense := by
    intro m hm
    obtain ⟨hm, hle⟩ := Std.TreeMap.maxKey?_eq_some_iff_getKey?_eq_self_and_forall.1 hm
    refine ⟨h.mem_iff.1 (Std.TreeMap.mem_of_getKey?_eq_some hm), fun t ht => ?_⟩
    obtain ⟨k, rfl⟩ := t.exists_value
    exact hle k (h.mem_iff.2 ht)
  constructor
  · intro hs
    obtain ⟨m, hm, rfl⟩ := Option.map_eq_some_iff.1 hs
    exact greatest hm
  · rintro ⟨hs, hle⟩
    obtain ⟨k, rfl⟩ := s.exists_value
    have some : bag.greatest?.isSome := by
      rw [greatest?, Std.TreeMap.isSome_maxKey?_iff_isEmpty_eq_false]
      exact Std.TreeMap.isEmpty_eq_false_iff_exists_mem.2 ⟨k, h.mem_iff.2 hs⟩
    obtain ⟨m, hm⟩ := Option.isSome_iff_exists.1 some
    rw [hm, Option.map_some, le_antisymm ((greatest hm).2 _ hs) (hle _ (greatest hm).1)]

/-- A bag lists its values in ascending order. -/
theorem toList_eq (h : bag.Holds vs) :
    bag.toList.map Value.sense = (Value.sort vs).map Value.sense := by
  have runs : bag.toList.map Value.sense =
      ((Value.sort (Value.distinct vs)).map Value.sense).flatMap fun s =>
        List.replicate ((vs.map Value.sense).count s) s := by
    have : bag.toList.map Value.sense =
        (Table.entries bag.counts id).flatMap fun (s, n) => List.replicate n s := by
      simp [toList, Table.entries, List.map_flatMap, List.flatMap_map]
    rw [this, h.entries, List.flatMap_map, List.flatMap_map]
    simp only [Value.count_senses]
  rw [runs]
  have ascending := Value.ascending_senses_sort_distinct vs
  refine Eq.symm (Value.senses_sort_eq (ascending_runs _ ascending) ?_)
  refine List.perm_iff_count.2 fun s => ?_
  rw [count_runs _ _ ascending.nodup]
  split
  · rfl
  · next hs =>
    rw [Value.mem_senses_sort_distinct] at hs
    exact (List.count_eq_zero.2 hs).symm

theorem sum_eq (h : bag.Holds vs) : bag.sum = (Value.sort (Value.distinct vs)).foldl
    (fun total v => total.add (v.toBinary64.mul (Binary64.ofInt (vs.count v))))
    (Binary64.ofInt 0) := by
  obtain ⟨g, hg⟩ := Sense.exists_of_congr Value.toBinary64_congr
  have : bag.sum = (Table.entries bag.counts id).foldl
      (fun total (s, n) => total.add ((g s).mul (Binary64.ofInt n))) (Binary64.ofInt 0) := by
    simp only [sum, Table.entries, List.foldl_map, hg, id]
  rw [this, h.entries, List.foldl_map]
  simp only [hg]

end Holds

end Bag

end MatchAlgebra
