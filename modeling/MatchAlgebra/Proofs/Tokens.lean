import MatchAlgebra.Proofs.Partition

/-!
# Tokens of a partition

A partition keeps the tokens that undo its source tuples; each of its accumulations keeps the tokens
that it has handed out and not taken back.  These are the same:

    p.Holds cs feed  →  p.fused[i]? = some a  →
      (p.undos.map (·[i]?)).Perm (a.pending.keys.map some)                        (Holds.inStep)

So each token is there once, and a copy that is taken back hands in tokens that are still pending.
-/

namespace MatchAlgebra

theorem nonempty?_eq_some {α : Type} {l l' : List α} :
    nonempty? l = some l' ↔ l = l' ∧ l ≠ [] := by
  cases l with
  | nil => exact iff_of_false (fun h => by cases h) (fun h => h.2 rfl)
  | cons a l =>
    exact (iff_of_eq (Option.some.injEq _ _)).trans (and_iff_left (List.cons_ne_nil a l)).symm

/-- The pending tokens are those of the ledger. -/
theorem Accumulation.Holds.mem_pending {a : Accumulation} {ledger : Accumulation.Ledger}
    (h : a.Holds ledger) {token : Nat} : token ∈ a.pending ↔ token ∈ ledger.map (·.1) := by
  rw [← Std.TreeMap.isSome_getElem?_iff_mem, Option.isSome_iff_exists, List.mem_map]
  constructor
  · rintro ⟨v, hv⟩
    obtain ⟨tuple, htuple, -⟩ := (h.pending token v).1 hv
    exact ⟨_, htuple, rfl⟩
  · rintro ⟨entry, hentry, rfl⟩
    exact ⟨_, (h.pending ..).2 ⟨entry.2, hentry, rfl⟩⟩

namespace Partition

variable {p : Partition} {collectors : List Collector} {feed : Feed}

/-- All that is left to be undone. -/
def undos (p : Partition) : List Undo := p.contributions.toList.flatMap (·.2)

/-- The undo entries of the source tuples are the tokens that are pending, each once. -/
structure InStep (p : Partition) (collectors : List Collector) : Prop where
  collectors : p.fused.map (·.collector) = collectors
  widths : ∀ undo ∈ p.undos, undo.length = p.fused.length
  pending : ∀ (i : Nat) (a : Accumulation), p.fused[i]? = some a →
    (p.undos.map (·[i]?)).Perm (a.pending.keys.map some)

/-- The latest copy of the source tuple can be undone: its tokens are pending. -/
def CanRetract (p : Partition) (s : Value) : Prop :=
  ∃ undo rest, p.contributions[s]? = some (undo :: rest) ∧
    List.Forall₂ (fun a token => (Accumulation.undo a token).2 = true) p.fused undo

/-- A feed sorted by different source tuples, if it has no others. -/
theorem flatMap_filter_perm {sources : List Value} (feed : Feed)
    (different : sources.Pairwise fun s t => (s == t) = false)
    (all : ∀ entry ∈ feed, ∃ s ∈ sources, (entry.2 == s) = true) :
    (sources.flatMap fun s => feed.filter (·.2 == s)).Perm feed := by
  induction sources generalizing feed with
  | nil =>
    cases feed with
    | nil => exact .nil
    | cons entry feed =>
      obtain ⟨s, hs, -⟩ := all entry List.mem_cons_self
      cases hs
  | cons s sources ih =>
    obtain ⟨others, different⟩ := List.pairwise_cons.1 different
    rw [List.flatMap_cons]
    refine List.Perm.trans (List.Perm.append_left _ ?_) (List.filter_append_perm (·.2 == s) feed)
    -- the other tuples have their copies in the rest of the feed
    have rest : (sources.flatMap fun t => feed.filter (·.2 == t)) =
        sources.flatMap fun t => (feed.filter fun entry => !(entry.2 == s)).filter (·.2 == t) := by
      refine List.flatMap_congr fun t ht => ?_
      rw [List.filter_filter]
      refine List.filter_congr fun entry _ => ?_
      cases hentry : entry.2 == t with
      | false => rfl
      | true =>
        have other : (entry.2 == s) = false := by
          refine Bool.eq_false_iff.2 fun hs => ?_
          exact Bool.false_ne_true ((others t ht).symm.trans (BEq.trans (BEq.symm hs) hentry))
        rw [other]
        rfl
    rw [rest]
    refine ih _ different fun entry hentry => ?_
    obtain ⟨hfeed, hne⟩ := List.mem_filter.1 hentry
    obtain ⟨t, ht, heq⟩ := all entry hfeed
    rcases List.mem_cons.1 ht with rfl | ht
    · rw [heq] at hne
      cases hne
    · exact ⟨t, ht, heq⟩

namespace Holds

theorem undos_perm (h : p.Holds collectors feed) :
    p.undos.Perm (feed.map fun entry => List.replicate collectors.length entry.1) := by
  have listed : p.undos = (p.contributions.toList.map (·.1)).flatMap fun s =>
      (feed.filter (·.2 == s)).map fun entry => List.replicate collectors.length entry.1 := by
    rw [undos, List.flatMap_map]
    refine List.flatMap_congr fun (s, undos) hs => ?_
    have found : p.contributions[s]? = some undos :=
      (Std.TreeMap.mem_toList_iff_getKey?_eq_some_and_getElem?_eq_some.1 hs).2
    rw [h.contributions, nonempty?_eq_some] at found
    exact found.1.symm
  rw [listed, ← List.map_flatMap]
  refine (flatMap_filter_perm feed ?_ fun entry hentry => ?_).map _
  · refine List.pairwise_map.2 (p.contributions.ordered_keys_toList.imp fun {a b} lt => ?_)
    refine Bool.eq_false_iff.2 fun heq => ?_
    rw [(Value.compare_eq_iff ..).2 heq] at lt
    cases lt
  · have some_copy : feed.undos collectors.length entry.2 ≠ [] := fun hnil =>
      List.filter_eq_nil_iff.1 (List.map_eq_nil_iff.1 hnil) entry hentry BEq.rfl
    obtain ⟨s, hs, hmem⟩ :=
      Std.TreeMap.getElem?_eq_some_iff_exists_compare_eq_eq_and_mem_toList.1
        ((h.contributions entry.2).trans (nonempty?_eq_some.2 ⟨rfl, some_copy⟩))
    exact ⟨s, List.mem_map_of_mem hmem, (Value.compare_eq_iff ..).1 hs⟩

theorem inStep (h : p.Holds collectors feed) : p.InStep collectors := by
  obtain ⟨next, fused⟩ := h.fused
  have listed := h.undos_perm
  refine ⟨fused.collectors, fun undo hundo => ?_, fun i a ha => ?_⟩
  · obtain ⟨entry, -, rfl⟩ := List.mem_map.1 (listed.mem_iff.1 hundo)
    rw [List.length_replicate, fused.length_eq]
  · have holds := (fused.lockstep a (List.mem_of_getElem? ha)).2
    have below : i < collectors.length := by
      rw [← fused.length_eq]
      exact (List.getElem?_eq_some_iff.1 ha).1
    have tokens : (feed.map fun entry => List.replicate collectors.length entry.1).map (·[i]?) =
        (feed.map (·.1)).map some := by
      rw [List.map_map, List.map_map]
      exact List.map_congr_left fun entry _ => List.getElem?_replicate_of_lt below
    refine (listed.map _).trans ?_
    rw [tokens]
    refine List.Perm.map _ ((List.perm_ext_iff_of_nodup h.nodup Std.TreeMap.nodup_keys).2 ?_)
    intro token
    rw [Std.TreeMap.mem_keys, holds.mem_pending, feed.ledger_tokens]

/-- The latest copy of a source tuple that has been fed has live tokens. -/
theorem canRetract (h : p.Holds collectors feed) {s : Value} (fed : 0 < p.copies s) :
    p.CanRetract s := by
  obtain ⟨next, fused⟩ := h.fused
  cases hs : feed.filter (·.2 == s) with
  | nil =>
    rw [h.copies_eq, List.count, List.countP_map, List.countP_eq_length_filter] at fed
    exact absurd (congrArg List.length hs) (Nat.ne_of_gt fed)
  | cons entry rest =>
    have found := h.contributions s
    rw [Feed.undos, hs, List.map_cons] at found
    refine ⟨_, _, found, ?_⟩
    have live : entry.1 ∈ feed.ledger.map (·.1) := by
      rw [feed.ledger_tokens]
      exact List.mem_map_of_mem (List.mem_of_mem_filter (hs ▸ List.mem_cons_self))
    rw [← fused.length_eq, ← List.map_const', List.forall₂_map_right_iff, List.forall₂_same]
    exact fun a ha => (fused.lockstep a ha).2.undo_iff.2 live

end Holds

end Partition

end MatchAlgebra
