import Mathlib.Data.List.Chain
import MatchAlgebra.Proofs.Sharing

/-!
# What a union of logs lists

Logs that were made in any way, whatever nodes they have in common, are united by their conditions:

    u.oldestFirst = plainUnion (parts.map Chain.oldestFirst)              (Made.oldestFirst_union)

So a union may stand for its parts in a further union (`Made.union_again`), and where the conditions
of each part read only what is bound before them in the part, so do those of the union
(`Made.readBound_union`): a condition that is new to the union comes after all that stands before it
in its part, since that is there by then.
-/

namespace MatchAlgebra

/-! ## Reading what is bound -/

namespace Condition

/-- Each condition reads only variables that conditions before it bind. -/
def ReadBound (cs : List Condition) : Prop :=
  ∀ before c after, cs = before ++ c :: after →
    ∀ v ∈ c.reads, (before.flatMap binds).contains v = true

theorem ReadBound.nil : ReadBound [] := by
  intro before c after h
  cases before <;> cases h

theorem ReadBound.snoc {cs : List Condition} {c : Condition} (h : ReadBound cs)
    (reads : ∀ v ∈ c.reads, (cs.flatMap binds).contains v = true) : ReadBound (cs ++ [c]) := by
  intro before d after heq v hv
  rcases List.eq_nil_or_concat after with rfl | ⟨after, last, rfl⟩
  · obtain ⟨rfl, same⟩ := List.append_inj' heq rfl
    rw [← List.singleton_inj.1 same] at hv
    exact reads v hv
  · rw [List.concat_eq_append, ← List.cons_append, ← List.append_assoc] at heq
    exact h before d after (List.append_inj' heq rfl).1 v hv

theorem contains_binds_of_subset {cs ds : List Condition} (h : cs ⊆ ds) {v : Variable}
    (bound : (cs.flatMap binds).contains v = true) : (ds.flatMap binds).contains v = true := by
  obtain ⟨w, hw, same⟩ := List.contains_iff_exists_mem_beq.1 bound
  obtain ⟨c, hc, hw⟩ := List.mem_flatMap.1 hw
  exact List.contains_iff_exists_mem_beq.2 ⟨w, List.mem_flatMap.2 ⟨c, h hc, hw⟩, same⟩

variable {pool : List Condition}

/-- Conditions that are new keep their order, and what stood before them is there. -/
theorem readBound_appendAllNew
    (identified : ∀ c ∈ pool, ∀ d ∈ pool, (c == d) = true → c = d)
    {listed earlier cs : List Condition} (hlisted : listed ⊆ pool) (hcs : cs ⊆ pool)
    (covered : earlier ⊆ listed) (h : ReadBound listed) (order : ReadBound (earlier ++ cs)) :
    ReadBound (appendAllNew listed cs) := by
  induction cs generalizing listed earlier with
  | nil => exact h
  | cons c cs ih =>
    -- `c` joins what stands earlier, which the result covers whether or not `c` is new to it
    obtain ⟨hc, hcs⟩ := List.cons_subset.1 hcs
    have order' : ReadBound ((earlier ++ [c]) ++ cs) := by
      rwa [List.append_assoc, List.singleton_append]
    have single : [c] ⊆ pool := fun d hd => List.mem_singleton.1 hd ▸ hc
    have mem : ∀ {d}, d ∈ appendNew listed c ↔ d ∈ listed ∨ d ∈ [c] :=
      mem_appendAllNew identified hlisted single
    have hlisted' : appendNew listed c ⊆ pool := fun d hd =>
      (mem.1 hd).elim (fun hd => hlisted hd) fun hd => single hd
    have covered' : earlier ++ [c] ⊆ appendNew listed c := fun d hd =>
      mem.2 ((List.mem_append.1 hd).imp_left fun hd => covered hd)
    refine ih hlisted' hcs covered' ?_ order'
    rw [appendNew]
    by_cases known : listed.contains c = true
    · rwa [if_pos known]
    · rw [if_neg known]
      refine h.snoc fun v hv => contains_binds_of_subset covered ?_
      exact order earlier c cs rfl v hv

theorem readBound_plainUnion (identified : ∀ c ∈ pool, ∀ d ∈ pool, (c == d) = true → c = d)
    {lists : List (List Condition)} (known : ∀ cs ∈ lists, cs ⊆ pool)
    (order : ∀ cs ∈ lists, ReadBound cs) : ReadBound (plainUnion lists) := by
  have both : plainUnion lists ⊆ pool ∧ ReadBound (plainUnion lists) := by
    refine List.foldlRecOn (motive := fun listed => listed ⊆ pool ∧ ReadBound listed) lists
      appendAllNew ⟨List.nil_subset _, .nil⟩ ?_
    rintro listed ⟨hlisted, h⟩ cs hcs
    refine ⟨fun c hc => ?_,
      readBound_appendAllNew identified hlisted (known cs hcs) (List.nil_subset _) h
        (order cs hcs)⟩
    rcases (mem_appendAllNew identified hlisted (known cs hcs)).1 hc with hc | hc
    · exact hlisted hc
    · exact known cs hcs hc
  exact both.2

/-- Conditions are told apart by their ids. -/
theorem pairwise_beq_eq_false_iff {cs : List Condition} :
    (cs.Pairwise fun c d => (d == c) = false) ↔ cs.Pairwise fun c d => c.id ≠ d.id := by
  refine List.Pairwise.iff fun c d => ⟨fun different same => ?_, beq_eq_false⟩
  rw [show (d == c) = (d.id == c.id) from rfl, same, beq_self_eq_true] at different
  cases different

end Condition

theorem Registry.eq_of_beq (r : Registry) :
    ∀ c ∈ r.conditions, ∀ d ∈ r.conditions, (c == d) = true → c = d := by
  intro c hc d hd same
  have ids : (c.id == d.id) = true := same
  exact r.identified c hc d hd (beq_iff_eq.1 ids)

/-- Logs of a registry list only conditions of it. -/
theorem Registry.oldestFirst_subset {r : Registry} {logs : List Log}
    (holds : ∀ log ∈ logs, r.Holds log) :
    ∀ cs ∈ logs.map Chain.oldestFirst, cs ⊆ r.conditions :=
  List.forall_mem_map.2 fun log hlog c hc =>
    (holds log hlog).conditions c (Chain.mem_oldestFirst.1 hc)

/-! ## The union of logs -/

namespace Log

variable {s s' : Supply} {cs : List Condition} {logs parts : List Log} {u : Log}

theorem exists_union (parts : List Log) (s : Supply) :
    ∃ u s', (Log.union parts).Yields s u s' := ⟨_, _, Build.modifyGet_yields.2 rfl⟩

/-- No condition is in the log twice. -/
def Distinct (log : Log) : Prop := log.oldestFirst.Pairwise fun c d => c.id ≠ d.id

instance (log : Log) : Decidable (Distinct log) :=
  inferInstanceAs (Decidable (log.oldestFirst.Pairwise fun c d => c.id ≠ d.id))

namespace Made

/-- Logs that were made are in one registry. -/
theorem exists_holds (made : Made s cs logs) (known : ∀ log ∈ parts, log ∈ logs) :
    ∃ r : Registry, r.supply = s ∧ ∀ log ∈ parts, r.Holds log := by
  obtain ⟨r, supply, held⟩ := made.exists_registry
  exact ⟨r, supply, fun log hlog => held.logs log (known log hlog)⟩

section
variable (made : Made s cs logs) (known : ∀ log ∈ parts, log ∈ logs)
  (yields : (Log.union parts).Yields s u s')
include made known yields

/-- The union starts with its first part. -/
theorem union_grownFrom {first : Log} {rest : List Log} (split : parts = first :: rest) :
    u.grownFrom first = true := by
  obtain ⟨r, rfl, holds⟩ := made.exists_holds known
  obtain ⟨later, -, -, new, begins, -⟩ := Registry.reaches_union yields holds
  exact (begins first rest split).grownFrom new.measured

/-- The union of logs that grow from left to right is the last of them. -/
theorem union_growing {front : List Log} {last : Log} (split : parts = front ++ [last])
    (growing : parts.IsChain fun a b => b.grownFrom a = true) :
    u = last ∧ u.grownFrom last = true ∧ last.grownFrom u = true := by
  obtain ⟨r, rfl, holds⟩ := made.exists_holds known
  have chained := growing.imp_of_mem_imp fun a b ha hb =>
    (made.grownFrom_iff_begins (known b hb) (known a ha)).1
  subst split
  have holds_last := holds last (List.mem_append_right _ List.mem_cons_self)
  obtain ⟨same, -⟩ :=
    Registry.eq_of_union_growing yields (List.isChain_iff_pairwise.1 chained) holds_last
  have self := Chain.Begins.refl.grownFrom holds_last.measured
  rw [same]
  exact ⟨rfl, self, self⟩

variable (distinct : ∀ log ∈ parts, Distinct log)
include distinct

theorem oldestFirst_union : u.oldestFirst = plainUnion (parts.map Chain.oldestFirst) := by
  obtain ⟨r, rfl, holds⟩ := made.exists_holds known
  obtain ⟨-, -, -, -, -, listed⟩ := Registry.reaches_union yields holds
  exact listed fun log hlog => Condition.pairwise_beq_eq_false_iff.2 (distinct log hlog)

theorem distinct_union : Distinct u := by
  rw [Distinct, made.oldestFirst_union known yields distinct]
  exact Condition.pairwise_beq_eq_false_iff.1 (distinct_plainUnion _)

theorem mem_union (c : Condition) : c ∈ u.oldestFirst ↔ ∃ log ∈ parts, c ∈ log.oldestFirst := by
  have listed := made.oldestFirst_union known yields distinct
  obtain ⟨r, rfl, holds⟩ := made.exists_holds known
  rw [listed, mem_plainUnion r.eq_of_beq (Registry.oldestFirst_subset holds)]
  simp only [List.mem_map, exists_exists_and_eq_and]

theorem readBound_union (order : ∀ log ∈ parts, Condition.ReadBound log.oldestFirst) :
    Condition.ReadBound u.oldestFirst := by
  have listed := made.oldestFirst_union known yields distinct
  obtain ⟨r, rfl, holds⟩ := made.exists_holds known
  rw [listed]
  exact Condition.readBound_plainUnion r.eq_of_beq (Registry.oldestFirst_subset holds)
    (List.forall_mem_map.2 order)

end

/-- A union may stand for its parts in a further union. -/
theorem union_again (made : Made s cs logs) {more : List Log} (union_known : u ∈ logs)
    (listed : u.oldestFirst = plainUnion (parts.map Chain.oldestFirst))
    (union_distinct : Distinct u) (known : ∀ log ∈ parts ++ more, log ∈ logs)
    (distinct : ∀ log ∈ parts ++ more, Distinct log) :
    ∃ v s₁ w s₂, (Log.union (u :: more)).Yields s v s₁ ∧
      (Log.union (parts ++ more)).Yields s₁ w s₂ ∧ v.oldestFirst = w.oldestFirst := by
  obtain ⟨-, more_known⟩ := List.forall_mem_append.1 known
  obtain ⟨-, more_distinct⟩ := List.forall_mem_append.1 distinct
  have known_v : ∀ log ∈ u :: more, log ∈ logs := List.forall_mem_cons.2 ⟨union_known, more_known⟩
  obtain ⟨v, s₁, yields_v⟩ := exists_union (u :: more) s
  obtain ⟨w, s₂, yields_w⟩ := exists_union (parts ++ more) s₁
  have listed_v := made.oldestFirst_union known_v yields_v
    (List.forall_mem_cons.2 ⟨union_distinct, more_distinct⟩)
  have listed_w := (made.union known_v yields_v).oldestFirst_union
    (fun log hlog => List.mem_cons_of_mem _ (known log hlog)) yields_w distinct
  refine ⟨v, s₁, w, s₂, yields_v, yields_w, ?_⟩
  rw [listed_v, listed_w, List.map_cons, List.map_append, listed, plainUnion_again]

end Made

/-- The log is the union of the parts. -/
structure Unites (parts : List Log) (u : Log) : Prop where
  conditions : u.oldestFirst = plainUnion (parts.map Chain.oldestFirst)
  /-- nothing is repeated -/
  distinct : Distinct u
  /-- nothing is lost -/
  members : ∀ c, c ∈ u.oldestFirst ↔ ∃ log ∈ parts, c ∈ log.oldestFirst
  first : ∀ log rest, parts = log :: rest → u.grownFrom log = true
  last : ∀ front log, parts = front ++ [log] →
    parts.IsChain (fun a b => b.grownFrom a = true) →
      u = log ∧ u.grownFrom log = true ∧ log.grownFrom u = true
  /-- wherever the union and its parts are known, it may stand for them in a further union -/
  again : ∀ s cs logs, Made s cs logs → u ∈ logs → (∀ log ∈ parts, log ∈ logs) →
    ∀ more : List Log, (∀ log ∈ more, log ∈ logs) → (∀ log ∈ more, Distinct log) →
      ∃ v s₁ w s₂, (Log.union (u :: more)).Yields s v s₁ ∧
        (Log.union (parts ++ more)).Yields s₁ w s₂ ∧ v.oldestFirst = w.oldestFirst
  bound : (∀ log ∈ parts, Condition.ReadBound log.oldestFirst) → Condition.ReadBound u.oldestFirst

/-- **The union of logs is the plain one.**  Whatever nodes the parts have in common, the union
lists their conditions in turn, each of them once. -/
theorem union_unites (made : Made s cs logs) (known : ∀ log ∈ parts, log ∈ logs)
    (distinct : ∀ log ∈ parts, Distinct log) :
    ∃ u s', (Log.union parts).Yields s u s' ∧ Unites parts u := by
  obtain ⟨u, s', yields⟩ := exists_union parts s
  have listed := made.oldestFirst_union known yields distinct
  have union_distinct := made.distinct_union known yields distinct
  refine ⟨u, s', yields, ?_⟩
  exact
    { conditions := listed
      distinct := union_distinct
      members := made.mem_union known yields distinct
      first := fun _ _ split => made.union_grownFrom known yields split
      last := fun _ _ split growing => made.union_growing known yields split growing
      again := fun _ _ _ made union_known known _ more_known more_distinct =>
        made.union_again union_known listed union_distinct
          (List.forall_mem_append.2 ⟨known, more_known⟩)
          (List.forall_mem_append.2 ⟨distinct, more_distinct⟩)
      bound := made.readBound_union known yields distinct }

/-- Two logs grown from one, that one, and a log of other nodes. -/
theorem union_unites_shared :
    let type : FactType := ⟨"T"⟩
    let v : Variable := ⟨⟨1, 1⟩, "t_1", .fact type⟩
    let w : Variable := ⟨⟨1, 2⟩, "w_2", .value⟩
    let found : Condition := .step 1 (.pattern v type)
    let kept : Condition := .step 2 (.filter [v] fun _ => true)
    let derived : Condition := .step 3 (.bind w [v] wholeTuple)
    let start : Log := .link .empty 0 1 found
    let left : Log := .link start 1 2 kept
    let right : Log := .link start 2 2 derived
    let other : Log := .link (.link .empty 3 1 found) 4 2 derived
    let s : Supply := { drawn := 3, nextNode := 5 }
    (∃ cs logs, Made s cs logs ∧ ∀ log ∈ [left, right, start, other], log ∈ logs) ∧
      (∀ log ∈ [left, right, start, other], Distinct log) ∧
      ∃ u s', (Log.union [left, right, start, other]).Yields s u s' ∧
        Unites [left, right, start, other] u ∧ u.oldestFirst = [found, kept, derived] ∧
        Condition.ReadBound u.oldestFirst := by
  intro type v w found kept derived start left right other s
  let s₁ : Supply := { drawn := 1 }
  let s₂ : Supply := { drawn := 2 }
  let s₃ : Supply := { drawn := 3 }
  let s₄ : Supply := { drawn := 3, nextNode := 1 }
  let s₅ : Supply := { drawn := 3, nextNode := 2 }
  let s₆ : Supply := { drawn := 3, nextNode := 3 }
  have makes₁ : (newStep (.pattern v type)).Yields {} found s₁ := rfl
  have makes₂ : (newStep (.filter [v] fun _ => true)).Yields s₁ kept s₂ := rfl
  have makes₃ : (newStep (.bind w [v] wholeTuple)).Yields s₂ derived s₃ := rfl
  have makes₄ : (Log.append .empty found).Yields s₃ start s₄ := rfl
  have makes₅ : (Log.append start kept).Yields s₄ left s₅ := rfl
  have makes₆ : (Log.append start derived).Yields s₅ right s₆ := rfl
  have makes₇ : (Log.ofList [found, derived]).Yields s₆ other s := rfl
  have made₃ := (((Made.start {}).step makes₁).step makes₂).step makes₃
  have made₅ := (made₃.empty.append List.mem_cons_self (by simp) makes₄).append
    List.mem_cons_self (by simp) makes₅
  have made₇ := (made₅.append (by simp) (by simp) makes₆).collect (by simp) makes₇
  have distinct : ∀ log ∈ [left, right, start, other], Distinct log := by decide
  have after : ∀ c : Condition, (∀ u ∈ c.reads, ([v] : List Variable).contains u = true) →
      Condition.ReadBound [found, c] := fun c reads =>
    (Condition.ReadBound.nil.snoc (by simp [found, Condition.reads, Step.reads])).snoc reads
  have order : ∀ log ∈ [left, right, start, other], Condition.ReadBound log.oldestFirst := by
    intro log hlog
    simp only [List.mem_cons, List.not_mem_nil, or_false] at hlog
    rcases hlog with rfl | rfl | rfl | rfl
    · exact after kept (by decide)
    · exact after derived (by decide)
    · exact Condition.ReadBound.nil.snoc (by decide)
    · exact after derived (by decide)
  have known : ∀ log ∈ [left, right, start, other], log ∈ [other, right, left, start, .empty] := by
    intro log hlog
    simp only [List.mem_cons, List.not_mem_nil, or_false] at hlog
    rcases hlog with rfl | rfl | rfl | rfl <;> simp
  obtain ⟨u, s', yields, unites⟩ := union_unites made₇ known distinct
  exact ⟨⟨_, _, made₇, known⟩, distinct, u, s', yields, unites, unites.conditions,
    unites.bound order⟩

end Log

end MatchAlgebra
