import MatchAlgebra.Aggregate.Accumulation
import MatchAlgebra.Proofs.Measure

/-!
# Undoing what was accumulated

An accumulation can be told to take tuples and to undo tokens in any order, also tokens that were
undone before or never handed out.  What is left is what would be there if only the live tuples had
been taken, those whose tokens have not been handed back since:

    ((start c).run calls).result == ((start c).run (tuples.map .add)).result

for every rearrangement `tuples` of the live ones (`undo_exact`).  Which tokens are handed out is
read off the accumulation at each call; it turns out that they are numbered from zero.

The invariant is a ledger: the live tuples under their tokens.  An accumulation holds a ledger if
its state holds the mapped tuples and its pending values are those of the ledger, token by token.
Taking a tuple adds an entry to the ledger and undoing a token removes one; a run is a fold of both.
-/

namespace MatchAlgebra

/-- The value of a collector over the tuples of a group. -/
def Collector.over (collector : Collector) (tuples : List (List Value)) : Value :=
  collector.measure.over (tuples.map collector.mapping)

namespace Accumulation

theorem undo_of_some {a : Accumulation} {token : Nat} {v : Value}
    (h : a.pending[token]? = some v) :
    a.undo token = (⟨a.collector, a.collector.measure.remove a.state token v,
      a.pending.erase token, a.nextToken⟩, true) := by
  rw [undo, h]

theorem undo_of_none {a : Accumulation} {token : Nat} (h : a.pending[token]? = none) :
    a.undo token = (a, false) := by
  rw [undo, h]

/-! ## Ledgers -/

/-- Live tuples under their tokens. -/
abbrev Ledger := List (Nat × List Value)

/-- What the measure of a collector sees of a ledger. -/
def Ledger.values (ledger : Ledger) (collector : Collector) : Measure.Numbered :=
  ledger.map fun entry => (entry.1, collector.mapping entry.2)

theorem Ledger.values_tuples (ledger : Ledger) (collector : Collector) :
    (ledger.values collector).map (·.2) = (ledger.map (·.2)).map collector.mapping := by
  rw [values, List.map_map, List.map_map]
  rfl

structure Holds (a : Accumulation) (ledger : Ledger) : Prop where
  nodup : (ledger.map (·.1)).Nodup
  issued : ∀ entry ∈ ledger, entry.1 < a.nextToken
  pending : ∀ token v, a.pending[token]? = some v ↔
    ∃ tuple, (token, tuple) ∈ ledger ∧ a.collector.mapping tuple = v
  state : a.collector.measure.Holds a.state a.nextToken (ledger.values a.collector)

theorem filter_eq_self_of_not_mem {α : Type} {token : Nat} {ledger : List (Nat × α)}
    (h : token ∉ ledger.map (·.1)) : ledger.filter (·.1 ≠ token) = ledger :=
  List.filter_eq_self.2 fun entry hentry =>
    decide_eq_true fun heq => h (List.mem_map.2 ⟨entry, hentry, heq⟩)

theorem perm_cons_filter {token : Nat} {tuple : List Value} {ledger : Ledger}
    (nodup : (ledger.map (·.1)).Nodup) (h : (token, tuple) ∈ ledger) :
    ledger.Perm ((token, tuple) :: ledger.filter (·.1 ≠ token)) := by
  induction ledger with
  | nil => cases h
  | cons entry ledger ih =>
    rw [List.map_cons, List.nodup_cons] at nodup
    rcases List.mem_cons.1 h with rfl | h
    · rw [List.filter_cons_of_neg (by simp), filter_eq_self_of_not_mem nodup.1]
    · have hne : entry.1 ≠ token := fun heq => nodup.1 (List.mem_map.2 ⟨_, h, heq.symm⟩)
      rw [List.filter_cons_of_pos (by simpa using hne)]
      exact ((ih nodup.2 h).cons _).trans (.swap ..)

namespace Holds

variable {a : Accumulation} {ledger other : Ledger} {token : Nat}

theorem start (collector : Collector) : (Accumulation.start collector).Holds [] where
  nodup := List.nodup_nil
  issued := by simp
  pending := by simp [Accumulation.start]
  state := Measure.Holds.start

theorem of_perm (h : a.Holds ledger) (hp : ledger.Perm other) : a.Holds other where
  nodup := (hp.map _).nodup_iff.1 h.nodup
  issued entry hentry := h.issued entry (hp.mem_iff.2 hentry)
  pending token v := by simp only [h.pending, hp.mem_iff]
  state := h.state.of_perm (hp.map _)

theorem add (h : a.Holds ledger) (tuple : List Value) :
    (a.add tuple).1.Holds ((a.nextToken, tuple) :: ledger) where
  nodup := by
    rw [List.map_cons, List.nodup_cons]
    refine ⟨fun hmem => ?_, h.nodup⟩
    obtain ⟨entry, hentry, heq⟩ := List.mem_map.1 hmem
    exact absurd (h.issued entry hentry) (by omega)
  issued := by
    intro entry hentry
    show entry.1 < a.nextToken + 1
    rcases List.mem_cons.1 hentry with rfl | hentry
    · exact Nat.lt_succ_self _
    · exact Nat.lt_succ_of_lt (h.issued entry hentry)
  pending token v := by
    show (a.pending.insert a.nextToken _)[token]? = some v ↔ _
    simp only [Std.TreeMap.getElem?_insert, Nat.compare_eq_eq, List.mem_cons, Prod.mk.injEq]
    split
    · next heq =>
      subst heq
      have fresh : ∀ tuple, (a.nextToken, tuple) ∉ ledger := fun tuple hmem =>
        absurd (h.issued _ hmem) (Nat.lt_irrefl _)
      simp [fresh, Accumulation.add]
    · next hne =>
      rw [h.pending]
      simp [Ne.symm hne, Accumulation.add]
  state := h.state.add

theorem undo_of_mem {tuple : List Value} (h : a.Holds ledger) (hmem : (token, tuple) ∈ ledger) :
    (a.undo token).2 = true ∧ (a.undo token).1.Holds (ledger.filter (·.1 ≠ token)) := by
  have hp : a.pending[token]? = some (a.collector.mapping tuple) :=
    (h.pending ..).2 ⟨tuple, hmem, rfl⟩
  rw [undo_of_some hp]
  refine ⟨rfl, (List.filter_sublist.map _).nodup h.nodup, fun entry hentry => ?_, fun t v => ?_, ?_⟩
  · exact h.issued entry (List.mem_of_mem_filter hentry)
  · show (a.pending.erase token)[t]? = some v ↔ _
    simp only [Std.TreeMap.getElem?_erase, Nat.compare_eq_eq, List.mem_filter]
    split
    · next heq => simp [heq]
    · next hne =>
      rw [h.pending]
      simp [Ne.symm hne]
  · exact (h.state.of_perm ((perm_cons_filter h.nodup hmem).map _)).remove

theorem undo_of_not_mem (h : a.Holds ledger) (hmem : token ∉ ledger.map (·.1)) :
    a.undo token = (a, false) := by
  refine undo_of_none (Option.eq_none_iff_forall_ne_some.2 fun v hv => ?_)
  obtain ⟨tuple, htuple, -⟩ := (h.pending ..).1 hv
  exact hmem (List.mem_map.2 ⟨_, htuple, rfl⟩)

theorem undo_iff (h : a.Holds ledger) : (a.undo token).2 = true ↔ token ∈ ledger.map (·.1) := by
  constructor
  · intro hundo
    by_contra hmem
    rw [h.undo_of_not_mem hmem] at hundo
    cases hundo
  · intro hmem
    obtain ⟨entry, hentry, rfl⟩ := List.mem_map.1 hmem
    exact (h.undo_of_mem hentry).1

/-- After handing in a token, whether or not it is live, nothing is left of it. -/
theorem undo (h : a.Holds ledger) : (a.undo token).1.Holds (ledger.filter (·.1 ≠ token)) := by
  by_cases hmem : token ∈ ledger.map (·.1)
  · obtain ⟨entry, hentry, rfl⟩ := List.mem_map.1 hmem
    exact (h.undo_of_mem hentry).2
  · rw [h.undo_of_not_mem hmem, filter_eq_self_of_not_mem hmem]
    exact h

theorem result (h : a.Holds ledger) (lawful : a.collector.measure.Lawful) :
    a.result.sense = (a.collector.over (ledger.map (·.2))).sense := by
  have := h.state.result lawful
  rwa [ledger.values_tuples] at this

end Holds

/-! ## Runs -/

inductive Call where
  | add (tuple : List Value)
  | undo (token : Nat)

namespace Call

def isAdd : Call → Bool
  | .add _ => true
  | .undo _ => false

/-- Whether one of the calls hands in the token. -/
def undone (token : Nat) : List Call → Bool
  | [] => false
  | .add _ :: calls => undone token calls
  | .undo t :: calls => t = token || undone token calls

end Call

def perform (a : Accumulation) : Call → Accumulation
  | .add tuple => (a.add tuple).1
  | .undo token => (a.undo token).1

def run (a : Accumulation) (calls : List Call) : Accumulation := calls.foldl perform a

/-- The tuples whose tokens are not handed in later on, each under the token that was handed out
for it. -/
def live (a : Accumulation) : List Call → Ledger
  | [] => []
  | .add tuple :: calls =>
    if Call.undone (a.add tuple).2 calls then (a.add tuple).1.live calls
    else ((a.add tuple).2, tuple) :: (a.add tuple).1.live calls
  | .undo token :: calls => (a.undo token).1.live calls

@[simp] theorem collector_run (a : Accumulation) (calls : List Call) :
    (a.run calls).collector = a.collector := by
  induction calls generalizing a with
  | nil => rfl
  | cons call calls ih =>
    show ((a.perform call).run calls).collector = _
    rw [ih]
    cases call with
    | add tuple => rfl
    | undo token =>
      show (a.undo token).1.collector = _
      unfold undo
      split <;> rfl

theorem nextToken_undo (a : Accumulation) (token : Nat) :
    (a.undo token).1.nextToken = a.nextToken := by
  unfold undo
  split <;> rfl

/-- Tokens are numbered in the order in which they are handed out. -/
theorem nextToken_run (a : Accumulation) (calls : List Call) :
    (a.run calls).nextToken = a.nextToken + calls.countP (·.isAdd) := by
  induction calls generalizing a with
  | nil => rfl
  | cons call calls ih =>
    refine (ih (a.perform call)).trans ?_
    cases call with
    | add tuple =>
      rw [List.countP_cons_of_pos rfl, Nat.add_comm (calls.countP _) 1, ← Nat.add_assoc]
      rfl
    | undo token =>
      rw [List.countP_cons_of_neg Bool.false_ne_true]
      exact congrArg (· + _) (a.nextToken_undo token)

/-- A run keeps the entries that it does not undo and adds its own live tuples. -/
theorem Holds.run {a : Accumulation} {ledger : Ledger} (h : a.Holds ledger) (calls : List Call) :
    (a.run calls).Holds
      (ledger.filter (fun entry => !Call.undone entry.1 calls) ++ a.live calls) := by
  induction calls generalizing a ledger with
  | nil => simpa [Accumulation.run, live, Call.undone] using h
  | cons call calls ih =>
    cases call with
    | add tuple =>
      refine (ih (h.add tuple)).of_perm ?_
      rw [live, List.filter_cons]
      show List.Perm (_ ++ (a.add tuple).1.live calls)
        (_ ++ if Call.undone a.nextToken calls then _ else (a.nextToken, tuple) :: _)
      cases hn : Call.undone a.nextToken calls with
      | true => exact .refl _
      | false => exact List.perm_middle.symm
    | undo token =>
      refine (ih h.undo).of_perm (.of_eq ?_)
      rw [live, List.filter_filter]
      congr 2
      funext entry
      simp [Call.undone, eq_comm, Bool.and_comm]

theorem exists_split_cons {first call : Call} {calls : List Call}
    {P : List Call → List Call → Prop} :
    (∃ before after, first :: calls = before ++ call :: after ∧ P before after) ↔
      (first = call ∧ P [] calls) ∨
        ∃ before after, calls = before ++ call :: after ∧ P (first :: before) after := by
  constructor
  · rintro ⟨before, after, heq, hP⟩
    cases before with
    | nil =>
      obtain ⟨h, rfl⟩ := List.cons.inj heq
      exact .inl ⟨h, hP⟩
    | cons c before =>
      obtain ⟨rfl, rfl⟩ := List.cons.inj heq
      exact .inr ⟨before, after, rfl, hP⟩
  · rintro (⟨rfl, hP⟩ | ⟨before, after, rfl, hP⟩)
    · exact ⟨[], calls, rfl, hP⟩
    · exact ⟨first :: before, after, rfl, hP⟩

/-- A token is live if it was handed out and has not been handed in since. -/
theorem mem_live {a : Accumulation} {token : Nat} {tuple : List Value} {calls : List Call} :
    (token, tuple) ∈ a.live calls ↔ ∃ before after, calls = before ++ .add tuple :: after ∧
      ((a.run before).add tuple).2 = token ∧ Call.undone token after = false := by
  induction calls generalizing a with
  | nil => simp [live]
  | cons call calls ih =>
    cases call with
    | add first =>
      have head : (token, tuple) ∈ a.live (.add first :: calls) ↔
          (first = tuple ∧ (a.add tuple).2 = token ∧ Call.undone token calls = false) ∨
            (token, tuple) ∈ (a.add first).1.live calls := by
        rw [live]
        split
        · next h =>
          refine ⟨.inr, fun hmem => hmem.resolve_left ?_⟩
          rintro ⟨rfl, rfl, hf⟩
          rw [h] at hf
          cases hf
        · next h =>
          rw [List.mem_cons, Prod.mk.injEq]
          refine or_congr ⟨?_, fun ⟨h₁, h₂, _⟩ => ⟨h₁ ▸ h₂.symm, h₁.symm⟩⟩ Iff.rfl
          rintro ⟨rfl, rfl⟩
          exact ⟨rfl, rfl, by simpa using h⟩
      rw [head, ih, exists_split_cons, Call.add.injEq]
      rfl
    | undo t =>
      rw [live, ih, exists_split_cons]
      simp only [reduceCtorEq, false_and, false_or]
      rfl

theorem live_map_add (a : Accumulation) (tuples : List (List Value)) :
    (a.live (tuples.map .add)).map (·.2) = tuples := by
  have never : ∀ token, ∀ tuples : List (List Value),
      Call.undone token (tuples.map .add) = false := by
    intro token tuples
    induction tuples with
    | nil => rfl
    | cons tuple tuples ih => exact ih
  induction tuples generalizing a with
  | nil => rfl
  | cons tuple tuples ih =>
    rw [List.map_cons, live, if_neg (by simp [never]), List.map_cons, ih]

theorem holds_run_start (collector : Collector) (calls : List Call) :
    ((start collector).run calls).Holds ((start collector).live calls) :=
  (Holds.start collector).run calls

/-- **Undo is exact.**  After any calls an accumulation is as if only the tuples had been taken
whose tokens have not been handed in since, in any order.  The token that it hands out next is the
number of those it has handed out, and a token is undone just if it has been handed out and not been
handed in since. -/
theorem undo_exact (collector : Collector) (calls : List Call) :
    let a := (start collector).run calls
    let tuples := ((start collector).live calls).map (·.2)
    (collector.measure.Lawful → ∀ others : List (List Value), others.Perm tuples →
      a.result == ((start collector).run (others.map .add)).result) ∧
    (∀ tuple, (a.add tuple).2 = calls.countP (·.isAdd)) ∧
    (∀ token, (a.undo token).2 = true ↔ ∃ tuple before after,
      calls = before ++ .add tuple :: after ∧
        (((start collector).run before).add tuple).2 = token ∧
        Call.undone token after = false) ∧
    (∀ token, (a.undo token).2 = false → (a.undo token).1 = a) ∧
    (∀ n ∈ a.collector.measure.total? a.state, n = tuples.length) ∧
    (∀ n ∈ a.collector.measure.multiplicities a.state, 0 < n ∧ n ≤ tuples.length) ∧
    (tuples.length < 2 ^ 64 →
      -2 ^ 127 ≤ a.collector.measure.exactSum a.state ∧
        a.collector.measure.exactSum a.state < 2 ^ 127) := by
  intro a tuples
  have holds : a.Holds ((start collector).live calls) := holds_run_start collector calls
  have length : (((start collector).live calls).values a.collector).length = tuples.length := by
    rw [Ledger.values, List.length_map, ← List.length_map (f := (·.2))]
  refine ⟨fun lawful others perm => ?_, fun tuple => ?_, fun token => ?_, fun token => ?_, ?_, ?_,
    fun hlen => ?_⟩
  · have same : a.collector.measure.Lawful := (collector_run _ calls).symm ▸ lawful
    have fresh := (holds_run_start collector (others.map .add)).result
      ((collector_run _ _).symm ▸ lawful)
    rw [live_map_add, collector_run] at fresh
    rw [← Value.sense_inj, holds.result same, fresh, collector_run]
    exact Measure.over_congr lawful ((perm.symm.map _).map _)
  · exact (nextToken_run _ calls).trans (Nat.zero_add _)
  · rw [holds.undo_iff, List.mem_map]
    constructor
    · rintro ⟨entry, hmem, rfl⟩
      exact ⟨entry.2, mem_live.1 hmem⟩
    · rintro ⟨tuple, hlive⟩
      exact ⟨(token, tuple), mem_live.2 hlive, rfl⟩
  · intro hundo
    have hmem : token ∉ ((start collector).live calls).map (·.1) := fun hmem => by
      rw [holds.undo_iff.2 hmem] at hundo
      cases hundo
    rw [holds.undo_of_not_mem hmem]
  · rw [← length]
    exact holds.state.total?
  · rw [← length]
    exact holds.state.multiplicities
  · rw [← length] at hlen
    exact holds.state.exactSum_bounds hlen

/-- Two of three tuples are left, fed again in the other order; an undone token is undone once. -/
theorem undo_exact_interleaved :
    let collector : Collector := ⟨.average, valueAt 0⟩
    let calls : List Call :=
      [.add [.int 3], .add [.bool true], .undo 0, .undo 7, .add [.int 5], .undo 0]
    let a := (start collector).run calls
    let others : List (List Value) := [[.int 5], [.bool true]]
    collector.measure.Lawful ∧ others.Perm (((start collector).live calls).map (·.2)) ∧
      (a.undo 0).2 = false ∧ (((start collector).live calls).map (·.2)).length < 2 ^ 64 ∧
      (a.result == ((start collector).run (others.map .add)).result) = true ∧
      (a.add [.int 8]).2 = 3 ∧ (a.undo 2).2 = true ∧ (a.undo 0).1 = a ∧
      (-2 ^ 127 ≤ a.collector.measure.exactSum a.state ∧
        a.collector.measure.exactSum a.state < 2 ^ 127) := by
  intro collector calls a others
  obtain ⟨same, numbered, handed, unchanged, -, -, bounded⟩ := undo_exact collector calls
  have perm : others.Perm (((start collector).live calls).map (·.2)) := List.Perm.swap ..
  have undone : (a.undo 0).2 = false := by rfl
  have few : (((start collector).live calls).map (·.2)).length < 2 ^ 64 := by decide
  have third : (a.undo 2).2 = true :=
    (handed 2).2 ⟨[.int 5], [.add [.int 3], .add [.bool true], .undo 0, .undo 7], [.undo 0],
      rfl, rfl, rfl⟩
  exact ⟨trivial, perm, undone, few, same trivial others perm, numbered [.int 8], third,
    unchanged 0 undone, bounded few⟩

end Accumulation

end MatchAlgebra
