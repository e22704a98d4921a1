import Mathlib.Data.List.Sort
import MatchAlgebra.Session.Handles

/-!
# What sets of handles hold

A list of handles in ascending order is determined by its members.  So it does not matter in which
order facts were collected, how often, or in how many rounds:

    ascending (hs.flatMap fun h => ascending (f h)) = ascending (hs.flatMap f)
                                                              (ascending_flatMap_ascending)
-/

namespace MatchAlgebra

namespace HandleSet

theorem mem_addAll {set : HandleSet} {handles : List Nat} {h : Nat} :
    h ∈ set.addAll handles ↔ h ∈ set ∨ h ∈ handles := by
  induction handles generalizing set with
  | nil => simp [addAll]
  | cons handle handles ih =>
    rw [addAll, List.foldl_cons, ← addAll, ih, Std.TreeSet.mem_insert, Nat.compare_eq_eq,
      List.mem_cons, eq_comm]
    tauto

theorem mem_ascending {handles : List Nat} {h : Nat} : h ∈ ascending handles ↔ h ∈ handles := by
  rw [ascending, Std.TreeSet.mem_toList, mem_addAll]
  simp

theorem ascending_pairwise (handles : List Nat) : (ascending handles).Pairwise (· < ·) :=
  Std.TreeSet.ordered_toList.imp fun h => Nat.compare_eq_lt.1 h

theorem ascending_eq_of_mem_iff {handles others : List Nat} (h : ∀ n, n ∈ handles ↔ n ∈ others) :
    ascending handles = ascending others := by
  have left := ascending_pairwise handles
  have right := ascending_pairwise others
  have perm : (ascending handles).Perm (ascending others) := by
    rw [List.perm_ext_iff_of_nodup (left.imp Nat.ne_of_lt) (right.imp Nat.ne_of_lt)]
    intro n
    rw [mem_ascending, mem_ascending, h]
  exact perm.eq_of_pairwise' (left.imp Nat.le_of_lt) (right.imp Nat.le_of_lt)

theorem ascending_flatMap_ascending {α : Type} (as : List α) (f : α → List Nat) :
    ascending (as.flatMap fun a => ascending (f a)) = ascending (as.flatMap f) := by
  refine ascending_eq_of_mem_iff fun n => ?_
  simp only [List.mem_flatMap, mem_ascending]

end HandleSet

end MatchAlgebra
