import MatchAlgebra.Proofs.Accumulation
import MatchAlgebra.Session.Partition

/-!
# What a partition holds

A partition keeps two books: the accumulations of its collectors, and for each source tuple the
tokens that undo its copies.  Both are views of one feed, the source tuples under their tokens with
the latest first.  The accumulations run in lockstep, so that one token stands for all of them.

    p.Holds cs feed  →  (p.insert s).Holds cs ((token, s) :: feed)           (Holds.insert)
    p.Holds cs feed  →  (p.retract s).Holds cs (feed.filter (·.1 ≠ token))   (Holds.retract)

Retracting finds the token of the latest copy, which is live in every accumulation; so the books
stay in step whatever is fed and taken back.
-/

namespace MatchAlgebra

/-! ## Accumulations in lockstep -/

structure Fused.Holds (fused : Fused) (collectors : List Collector) (next : Nat)
    (ledger : Accumulation.Ledger) : Prop where
  collectors : fused.map (·.collector) = collectors
  nodup : (ledger.map (·.1)).Nodup
  issued : ∀ entry ∈ ledger, entry.1 < next
  lockstep : ∀ a ∈ fused, a.nextToken = next ∧ a.Holds ledger

namespace Fused

theorem retract_replicate (fused : Fused) (token : Nat) :
    fused.retract (List.replicate fused.length token) = fused.map fun a => (a.undo token).1 := by
  induction fused with
  | nil => rfl
  | cons a fused ih => rw [List.length_cons, List.replicate_succ, retract, ih, List.map_cons]

namespace Holds

variable {fused : Fused} {collectors : List Collector} {next : Nat} {ledger : Accumulation.Ledger}

theorem length_eq (h : fused.Holds collectors next ledger) : fused.length = collectors.length := by
  rw [← h.collectors, List.length_map]

theorem start (collectors : List Collector) : (Fused.start collectors).Holds collectors 0 [] where
  collectors := by
    rw [Fused.start, List.map_map]
    exact List.map_id _
  nodup := List.nodup_nil
  issued := by simp
  lockstep a ha := by
    obtain ⟨collector, -, rfl⟩ := List.mem_map.1 ha
    exact ⟨rfl, .start collector⟩

theorem insert (h : fused.Holds collectors next ledger) (tuple : List Value) :
    (fused.insert tuple).1.Holds collectors (next + 1) ((next, tuple) :: ledger) where
  collectors := by
    rw [Fused.insert, List.map_map]
    exact h.collectors
  nodup := by
    rw [List.map_cons, List.nodup_cons]
    refine ⟨fun hmem => ?_, h.nodup⟩
    obtain ⟨entry, hentry, heq⟩ := List.mem_map.1 hmem
    exact absurd (h.issued entry hentry) (by omega)
  issued entry hentry := by
    rcases List.mem_cons.1 hentry with rfl | hentry
    · exact Nat.lt_succ_self _
    · exact Nat.lt_succ_of_lt (h.issued entry hentry)
  lockstep a ha := by
    obtain ⟨b, hb, rfl⟩ := List.mem_map.1 ha
    obtain ⟨rfl, holds⟩ := h.lockstep b hb
    exact ⟨rfl, holds.add tuple⟩

theorem tokens_insert (h : fused.Holds collectors next ledger) (tuple : List Value) :
    (fused.insert tuple).2 = List.replicate collectors.length next := by
  rw [← h.length_eq, ← List.map_const']
  exact List.map_congr_left fun a ha => (h.lockstep a ha).1

theorem retract (h : fused.Holds collectors next ledger) (token : Nat) :
    (fused.retract (List.replicate collectors.length token)).Holds collectors next
      (ledger.filter (·.1 ≠ token)) := by
  rw [← h.length_eq, retract_replicate]
  refine ⟨?_, (List.filter_sublist.map _).nodup h.nodup, fun entry hentry => ?_, fun a ha => ?_⟩
  · rw [List.map_map, ← h.collectors]
    exact List.map_congr_left fun a _ => Accumulation.collector_run a [.undo token]
  · exact h.issued entry (List.mem_of_mem_filter hentry)
  · obtain ⟨b, hb, rfl⟩ := List.mem_map.1 ha
    obtain ⟨rfl, holds⟩ := h.lockstep b hb
    exact ⟨Accumulation.nextToken_undo b token, holds.undo⟩

theorem senses_results (h : fused.Holds collectors next ledger)
    (lawful : ∀ c ∈ collectors, c.measure.Lawful) : fused.results.map Value.sense =
      collectors.map fun c => (c.over (ledger.map (·.2))).sense := by
  rw [← h.collectors] at lawful
  rw [Fused.results, List.map_map, ← h.collectors, List.map_map]
  refine List.map_congr_left fun a ha => ?_
  exact (h.lockstep a ha).2.result (lawful _ (List.mem_map_of_mem ha))

end Holds

end Fused

/-! ## Both books -/

/-- Source tuples under the tokens they were fed with, the latest first. -/
abbrev Feed := List (Nat × Value)

namespace Feed

/-- What the accumulations see of a feed. -/
def ledger (feed : Feed) : Accumulation.Ledger :=
  feed.map fun entry => (entry.1, entry.2.components)

/-- What undoes the copies of a source tuple in `width` accumulations. -/
def undos (feed : Feed) (width : Nat) (source : Value) : List Undo :=
  (feed.filter (·.2 == source)).map fun entry => List.replicate width entry.1

theorem ledger_tokens (feed : Feed) : feed.ledger.map (·.1) = feed.map (·.1) := by
  rw [ledger, List.map_map]
  rfl

theorem ledger_tuples (feed : Feed) :
    feed.ledger.map (·.2) = (feed.map (·.2)).map Value.components := by
  rw [ledger, List.map_map, List.map_map]
  rfl

theorem ledger_filter (feed : Feed) (token : Nat) :
    ledger (feed.filter (·.1 ≠ token)) = feed.ledger.filter (·.1 ≠ token) := by
  rw [ledger, ledger, List.filter_map]
  rfl

theorem filter_congr_source (feed : Feed) {s t : Value} (h : s == t) :
    feed.filter (·.2 == s) = feed.filter (·.2 == t) :=
  List.filter_congr fun _ _ => Bool.eq_iff_iff.2 ⟨(BEq.trans · h), (BEq.trans · (BEq.symm h))⟩

/-- Without the token of the latest copy of a source tuple, the feed holds its older copies and
every other tuple as before. -/
theorem filter_retract {feed rest : Feed} {token : Nat} {s s' : Value}
    (nodup : (feed.map (·.1)).Nodup) (h : feed.filter (·.2 == s) = (token, s') :: rest)
    (t : Value) :
    (feed.filter (·.1 ≠ token)).filter (·.2 == t) =
      if s == t then rest else feed.filter (·.2 == t) := by
  have hmem : (token, s') ∈ feed.filter (·.2 == s) := h ▸ List.mem_cons_self
  rw [List.mem_filter] at hmem
  rw [List.filter_comm]
  split
  · next hst =>
    rw [← filter_congr_source feed hst, h, List.filter_cons_of_neg (by simp)]
    have distinct : ((feed.filter (·.2 == s)).map (·.1)).Nodup :=
      (List.filter_sublist.map _).nodup nodup
    rw [h, List.map_cons, List.nodup_cons] at distinct
    exact Accumulation.filter_eq_self_of_not_mem distinct.1
  · next hst =>
    refine List.filter_eq_self.2 fun entry hentry => decide_eq_true fun heq => hst ?_
    obtain ⟨hin, ht⟩ := List.mem_filter.1 hentry
    have : entry = (token, s') := List.inj_on_of_nodup_map nodup hin hmem.1 heq
    rw [this] at ht
    exact BEq.trans (BEq.symm hmem.2) ht

end Feed

/-- A list as a table keeps it: nothing if it is empty. -/
def nonempty? {α : Type} : List α → Option (List α)
  | [] => none
  | l => some l

theorem getD_nonempty? {α : Type} (l : List α) : (nonempty? l).getD [] = l := by
  cases l <;> rfl

/-- The fused accumulations and the tokens of the source tuples are those of the feed. -/
structure Partition.Holds (p : Partition) (collectors : List Collector) (feed : Feed) : Prop where
  fused : ∃ next, p.fused.Holds collectors next feed.ledger
  contributions : ∀ s : Value, p.contributions[s]? = nonempty? (feed.undos collectors.length s)

namespace Partition

/-! ## Copies -/

theorem copies_eq (p : Partition) (s : Value) :
    p.copies s = (p.contributions[s]?.map (·.length)).getD 0 := by
  rw [copies, Std.TreeMap.getD_eq_getD_getElem?]
  cases p.contributions[s]? <;> rfl

theorem copies_start (collectors : List Collector) (s : Value) :
    (start collectors).copies s = 0 := by
  rw [copies_eq, start, Std.TreeMap.getElem?_emptyc]
  rfl

theorem copies_insert (p : Partition) (s t : Value) :
    (p.insert s).copies t = p.copies t + if s == t then 1 else 0 := by
  rw [copies_eq, copies_eq, insert]
  show (Option.map _ (p.contributions.change s _)[t]?).getD 0 = _
  rw [Table.getElem?_change_value]
  split
  · next h =>
    rw [Table.getElem?_congr_key _ h]
    cases p.contributions[t]? <;> rfl
  · rfl

theorem copies_retract (p : Partition) (s t : Value) :
    (p.retract s).copies t = p.copies t - if s == t then 1 else 0 := by
  have none_left : p.copies s = 0 → p.copies t = p.copies t - if s == t then 1 else 0 := by
    intro h
    split
    · next hst =>
      rw [copies_eq, Table.getElem?_congr_key _ hst, ← copies_eq] at h
      rw [h]
    · rfl
  unfold retract
  split
  · next undo h =>
    rw [copies_eq, copies_eq, Table.getElem?_erase_value]
    split
    · next hst => rw [← Table.getElem?_congr_key _ hst, h]; rfl
    · rfl
  · next undo rest _ h =>
    rw [copies_eq, copies_eq, Table.getElem?_change_value]
    split
    · next hst => rw [← Table.getElem?_congr_key _ hst, h]; rfl
    · rfl
  · next h₁ h₂ =>
    refine none_left ?_
    rw [copies_eq]
    match hs : p.contributions[s]? with
    | none => rfl
    | some [] => rfl
    | some [undo] => exact absurd hs (h₁ undo)
    | some (undo :: undo' :: rest) => exact absurd hs (h₂ undo (undo' :: rest))

theorem copies_of_isEmpty {p : Partition} (h : p.isEmpty = true) (s : Value) : p.copies s = 0 := by
  rw [copies_eq, Std.TreeMap.getElem?_of_isEmpty h]
  rfl

namespace Holds

variable {p : Partition} {collectors : List Collector} {feed : Feed}

theorem start (collectors : List Collector) : (Partition.start collectors).Holds collectors [] where
  fused := ⟨0, .start collectors⟩
  contributions _ := Std.TreeMap.getElem?_emptyc

theorem nodup (h : p.Holds collectors feed) : (feed.map (·.1)).Nodup := by
  obtain ⟨next, fused⟩ := h.fused
  rw [← feed.ledger_tokens]
  exact fused.nodup

theorem insert (h : p.Holds collectors feed) (s : Value) :
    ∃ token, (p.insert s).Holds collectors ((token, s) :: feed) := by
  obtain ⟨next, fused⟩ := h.fused
  refine ⟨next, ⟨next + 1, fused.insert s.components⟩, fun t => ?_⟩
  have added : (p.insert s).contributions = p.contributions.change s fun undos =>
      List.replicate collectors.length next :: undos.getD [] := by
    rw [← fused.tokens_insert s.components]
    rfl
  rw [added, Table.getElem?_change_value, h.contributions, h.contributions, getD_nonempty?,
    Feed.undos, Feed.undos, Feed.undos, List.filter_cons]
  split
  · next hst =>
    rw [feed.filter_congr_source hst]
    rfl
  · rfl

/-- Nothing new is fed by taking something back. -/
theorem retract (h : p.Holds collectors feed) (s : Value) :
    ∃ feed', feed'.Sublist feed ∧ (p.retract s).Holds collectors feed' := by
  cases hs : feed.filter (·.2 == s) with
  | nil =>
    have : p.contributions[s]? = none := by rw [h.contributions, Feed.undos, hs]; rfl
    refine ⟨feed, .refl feed, ?_⟩
    rw [Partition.retract, this]
    exact h
  | cons entry rest =>
    obtain ⟨token, s'⟩ := entry
    obtain ⟨next, fused⟩ := h.fused
    have found : p.contributions[s]? = some (List.replicate collectors.length token ::
        rest.map fun entry => List.replicate collectors.length entry.1) := by
      rw [h.contributions, Feed.undos, hs]
      rfl
    have retracted : (p.fused.retract (List.replicate collectors.length token)).Holds collectors
        next (Feed.ledger (feed.filter (·.1 ≠ token))) := by
      rw [Feed.ledger_filter]
      exact fused.retract token
    have left : ∀ t, Feed.undos (feed.filter (·.1 ≠ token)) collectors.length t =
        if s == t then rest.map fun entry => List.replicate collectors.length entry.1
        else feed.undos collectors.length t := by
      intro t
      rw [Feed.undos, Feed.filter_retract h.nodup hs]
      split <;> rfl
    refine ⟨feed.filter (·.1 ≠ token), List.filter_sublist, ?_⟩
    unfold Partition.retract
    rw [found]
    cases rest with
    | nil =>
      refine ⟨⟨next, retracted⟩, fun t => ?_⟩
      show (p.contributions.erase s)[t]? = _
      rw [Table.getElem?_erase_value, left, h.contributions]
      split <;> rfl
    | cons older rest =>
      refine ⟨⟨next, retracted⟩, fun t => ?_⟩
      show (p.contributions.change s _)[t]? = _
      rw [Table.getElem?_change_value, left, h.contributions]
      split <;> rfl

/-- Each source tuple has as many copies as there are entries for it. -/
theorem copies_eq (h : p.Holds collectors feed) (s : Value) :
    p.copies s = (feed.map (·.2)).count s := by
  rw [copies, Std.TreeMap.getD_eq_getD_getElem?, h.contributions, getD_nonempty?, Feed.undos,
    List.length_map, ← List.countP_eq_length_filter, List.count, List.countP_map]
  rfl

theorem isEmpty_iff (h : p.Holds collectors feed) : p.isEmpty = true ↔ feed = [] := by
  constructor
  · intro hempty
    rw [List.eq_nil_iff_forall_not_mem]
    intro entry hentry
    have := copies_of_isEmpty hempty entry.2
    rw [h.copies_eq, List.count, List.countP_eq_zero] at this
    exact this _ (List.mem_map.2 ⟨entry, hentry, rfl⟩) BEq.rfl
  · rintro rfl
    rw [isEmpty, Std.TreeMap.isEmpty_iff_forall_not_mem]
    intro s
    rw [← Std.TreeMap.isSome_getElem?_iff_mem, h.contributions]
    exact Bool.false_ne_true

end Holds

end Partition

end MatchAlgebra
