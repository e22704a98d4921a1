import MatchAlgebra.Proofs.Registry

/-!
# The union of logs is the plain one

The plain union of lists goes through them one after the other and appends what is not there yet.
The union of logs takes two short cuts, both told by the numbers of nodes: a log that was grown from
the result takes its place, and a log that the result was grown from is passed over.  It lists the
same conditions in the same order:

    u.oldestFirst = plainUnion (parts.map Chain.oldestFirst)              (Registry.reaches_union)

The short cuts agree with the plain way because a log grown from another starts with all of its
conditions, and because the elements marked as seen are at any time those of the result
(`Growth.Tracks`), also where the result is replaced as a whole.
-/

namespace MatchAlgebra

/-! ## Plain unions -/

section
variable {α : Type} [BEq α]

/-- Appends an element unless it is there. -/
def appendNew (listed : List α) (a : α) : List α :=
  if listed.contains a then listed else listed ++ [a]

def appendAllNew (listed as : List α) : List α := as.foldl appendNew listed

/-- The elements of all lists, list by list and each in its own order, without repetition. -/
def plainUnion (lists : List (List α)) : List α := lists.foldl appendAllNew []

theorem appendAllNew_cons (listed : List α) (a : α) (as : List α) :
    appendAllNew listed (a :: as) = appendAllNew (appendNew listed a) as := rfl

theorem appendAllNew_append (listed as bs : List α) :
    appendAllNew listed (as ++ bs) = appendAllNew (appendAllNew listed as) bs :=
  List.foldl_append

theorem appendAllNew_of_contains {listed as : List α}
    (h : ∀ a ∈ as, listed.contains a = true) : appendAllNew listed as = listed := by
  induction as with
  | nil => rfl
  | cons a as ih =>
    obtain ⟨ha, has⟩ := List.forall_mem_cons.1 h
    rw [appendAllNew_cons, appendNew, if_pos ha]
    exact ih has

theorem contains_append_singleton {listed : List α} {a b : α} :
    (listed ++ [a]).contains b = (listed.contains b || b == a) := by
  rw [List.contains_eq_any_beq, List.any_append, ← List.contains_eq_any_beq]
  simp

theorem appendAllNew_of_new {listed as : List α} (h : ∀ a ∈ as, listed.contains a = false)
    (distinct : as.Pairwise fun a b => (b == a) = false) :
    appendAllNew listed as = listed ++ as := by
  induction as generalizing listed with
  | nil => exact (List.append_nil _).symm
  | cons a as ih =>
    obtain ⟨ha, has⟩ := List.forall_mem_cons.1 h
    obtain ⟨first, distinct⟩ := List.pairwise_cons.1 distinct
    have new : ∀ b ∈ as, (listed ++ [a]).contains b = false := by
      intro b hb
      rw [contains_append_singleton, has b hb, first b hb]
      rfl
    rw [appendAllNew_cons, appendNew, ha, if_neg Bool.false_ne_true]
    exact (ih new distinct).trans (List.append_assoc _ _ _)

theorem distinct_appendAllNew {listed : List α} (as : List α)
    (h : listed.Pairwise fun a b => (b == a) = false) :
    (appendAllNew listed as).Pairwise fun a b => (b == a) = false := by
  induction as generalizing listed with
  | nil => exact h
  | cons a as ih =>
    rw [appendAllNew_cons, appendNew]
    by_cases known : listed.contains a = true
    · rw [if_pos known]
      exact ih h
    · rw [if_neg known]
      refine ih (List.pairwise_append.2 ⟨h, List.pairwise_singleton _ _, fun b hb c hc => ?_⟩)
      rw [List.mem_singleton.1 hc, Bool.eq_false_iff]
      intro same
      refine known ?_
      rw [List.contains_eq_any_beq]
      exact List.any_eq_true.2 ⟨b, hb, same⟩

theorem distinct_plainUnion (lists : List (List α)) :
    (plainUnion lists).Pairwise fun a b => (b == a) = false :=
  List.foldlRecOn lists appendAllNew List.Pairwise.nil fun _ h as _ => distinct_appendAllNew as h

/-- A first list without repetitions is taken as it is. -/
theorem plainUnion_cons {as : List α} (lists : List (List α))
    (distinct : as.Pairwise fun a b => (b == a) = false) :
    plainUnion (as :: lists) = lists.foldl appendAllNew as := by
  rw [plainUnion, List.foldl_cons, appendAllNew_of_new (fun _ _ => rfl) distinct, List.nil_append]

/-- A union may be united with more lists instead of the lists that it was made of. -/
theorem plainUnion_again (lists more : List (List α)) :
    plainUnion (plainUnion lists :: more) = plainUnion (lists ++ more) := by
  rw [plainUnion_cons more (distinct_plainUnion lists), plainUnion, plainUnion, List.foldl_append]

variable {pool listed as : List α}

/-- Where equal elements are the same, nothing is lost and nothing comes in. -/
theorem mem_appendAllNew (identified : ∀ a ∈ pool, ∀ b ∈ pool, (a == b) = true → a = b)
    (hlisted : listed ⊆ pool) (has : as ⊆ pool) {a : α} :
    a ∈ appendAllNew listed as ↔ a ∈ listed ∨ a ∈ as := by
  induction as generalizing listed with
  | nil => simp [appendAllNew]
  | cons b as ih =>
    obtain ⟨hb, has⟩ := List.cons_subset.1 has
    rw [appendAllNew_cons, appendNew, List.mem_cons]
    by_cases known : listed.contains b = true
    · rw [if_pos known, ih hlisted has]
      rw [List.contains_eq_any_beq] at known
      obtain ⟨c, hc, same⟩ := List.any_eq_true.1 known
      have here : b ∈ listed := by
        rwa [identified b hb c (hlisted hc) same]
      constructor
      · rintro (ha | ha)
        · exact .inl ha
        · exact .inr (.inr ha)
      · rintro (ha | rfl | ha)
        · exact .inl ha
        · exact .inl here
        · exact .inr ha
    · have hlisted' : listed ++ [b] ⊆ pool :=
        List.append_subset.2 ⟨hlisted, fun c hc => List.mem_singleton.1 hc ▸ hb⟩
      rw [if_neg known, ih hlisted' has, List.mem_append, List.mem_singleton, or_assoc]

theorem mem_plainUnion (identified : ∀ a ∈ pool, ∀ b ∈ pool, (a == b) = true → a = b)
    {lists : List (List α)} (known : ∀ as ∈ lists, as ⊆ pool) {a : α} :
    a ∈ plainUnion lists ↔ ∃ as ∈ lists, a ∈ as := by
  have step : ∀ listed : List α, listed ⊆ pool →
      (a ∈ lists.foldl appendAllNew listed ↔ a ∈ listed ∨ ∃ as ∈ lists, a ∈ as) := by
    induction lists with
    | nil => simp
    | cons as lists ih =>
      intro listed hlisted
      obtain ⟨has, known⟩ := List.forall_mem_cons.1 known
      have mem : ∀ {b : α}, b ∈ appendAllNew listed as ↔ b ∈ listed ∨ b ∈ as :=
        mem_appendAllNew identified hlisted has
      have inside : appendAllNew listed as ⊆ pool := fun b hb =>
        (mem.1 hb).elim (fun h => hlisted h) fun h => has h
      rw [List.foldl_cons, ih known _ inside, mem]
      simp [or_assoc]
  exact (step [] (List.nil_subset _)).trans (by simp)

end

/-! ## Chains under construction -/

namespace Chain.Growth

variable {α : Type} [BEq α] {g : Growth α}

/-- What is marked as seen is what the chain holds. -/
def Tracks (g : Growth α) : Prop := ∀ a, g.seen.contains a = g.chain.oldestFirst.contains a

theorem Tracks.add (h : g.Tracks) (a : α) : (g.add a).Tracks := by
  rw [Growth.add]
  by_cases known : g.seen.contains a = true
  · rwa [if_pos known]
  · rw [if_neg known]
    intro b
    rw [oldestFirst_append, contains_append_singleton, List.contains_cons, h b, Bool.or_comm]

theorem oldestFirst_add (h : g.Tracks) (a : α) :
    (g.add a).chain.oldestFirst = appendNew g.chain.oldestFirst a := by
  rw [Growth.add, appendNew, ← h a]
  by_cases known : g.seen.contains a = true
  · rw [if_pos known, if_pos known]
  · rw [if_neg known, if_neg known, oldestFirst_append]

theorem oldestFirst_addAll (h : g.Tracks) (as : List α) :
    (as.foldl Growth.add g).Tracks ∧
      (as.foldl Growth.add g).chain.oldestFirst = appendAllNew g.chain.oldestFirst as := by
  induction as generalizing g with
  | nil => exact ⟨h, rfl⟩
  | cons a as ih =>
    obtain ⟨tracks, listed⟩ := ih (h.add a)
    refine ⟨tracks, ?_⟩
    rw [List.foldl_cons, listed, oldestFirst_add h, appendAllNew_cons]

/-- A chain that was grown from the result has the elements of the result, which are marked, and
those of its newer nodes, which are marked now. -/
theorem Tracks.replace (h : g.Tracks) {c : Chain α} (begins : g.chain.Begins c)
    (measured : c.Measured) :
    Tracks { g with
      chain := c
      seen := c.newestFirst.take (c.length - g.chain.length) ++ g.seen } := by
  obtain ⟨newer, split⟩ := begins.isSuffix
  have newest : c.newestFirst.take (c.length - g.chain.length) = newer := by
    have length := c.length_newestFirst measured
    have length' := g.chain.length_newestFirst (begins.measured measured)
    rw [← split, List.length_append] at length
    rw [← split]
    exact List.take_left' (by omega)
  intro a
  have seen := h a
  rw [oldestFirst, List.contains_reverse] at seen ⊢
  show (List.contains (_ ++ g.seen) a) = _
  rw [newest, ← split, List.contains_append, List.contains_append, seen]

theorem begins_add (g : Growth α) (a : α) : g.chain.Begins (g.add a).chain := by
  rw [Growth.add]
  by_cases known : g.seen.contains a = true
  · rw [if_pos known]
    exact .refl
  · rw [if_neg known]
    exact .link .refl

theorem begins_addAll (g : Growth α) (as : List α) :
    g.chain.Begins (as.foldl Growth.add g).chain := by
  induction as generalizing g with
  | nil => exact .refl
  | cons a as ih => exact (begins_add g a).trans (ih _)

/-- Merging a chain keeps the result at the beginning and appends what is new in it, whichever way
is taken, as long as the numbers of nodes do not deceive. -/
theorem merge_plain [ReflBEq α] (h : g.Tracks) {c : Chain α} (measured : c.Measured)
    (grown : c.grownFrom g.chain = true → g.chain.Begins c)
    (grown' : g.chain.grownFrom c = true → c.Begins g.chain) :
    (g.merge c).Tracks ∧ g.chain.Begins (g.merge c).chain ∧
      ((c.oldestFirst.Pairwise fun a b => (b == a) = false) →
        (g.merge c).chain.oldestFirst = appendAllNew g.chain.oldestFirst c.oldestFirst) := by
  rw [merge]
  by_cases longer : c.grownFrom g.chain = true
  · rw [if_pos longer]
    refine ⟨h.replace (grown longer) measured, grown longer, fun distinct => ?_⟩
    obtain ⟨newer, split⟩ := (grown longer).isPrefix
    rw [← split] at distinct
    obtain ⟨-, newer_distinct, apart⟩ := List.pairwise_append.1 distinct
    have old : appendAllNew g.chain.oldestFirst g.chain.oldestFirst = g.chain.oldestFirst :=
      appendAllNew_of_contains fun a ha => List.contains_iff_exists_mem_beq.2 ⟨a, ha, BEq.rfl⟩
    have new : ∀ a ∈ newer, g.chain.oldestFirst.contains a = false := by
      intro a ha
      rw [List.contains_eq_any_beq, List.any_eq_false]
      intro b hb
      rw [apart b hb a ha]
      exact Bool.false_ne_true
    show c.oldestFirst = _
    rw [← split, appendAllNew_append, old]
    exact (appendAllNew_of_new new newer_distinct).symm
  · rw [if_neg longer]
    by_cases shorter : g.chain.grownFrom c = true
    · rw [if_pos shorter]
      refine ⟨h, .refl, fun _ => ?_⟩
      have known := (grown' shorter).isPrefix.subset
      exact (appendAllNew_of_contains fun a ha =>
        List.contains_iff_exists_mem_beq.2 ⟨a, known ha, BEq.rfl⟩).symm
    · rw [if_neg shorter]
      obtain ⟨tracks, listed⟩ := oldestFirst_addAll h c.oldestFirst
      exact ⟨tracks, begins_addAll g c.oldestFirst, fun _ => listed⟩

end Chain.Growth

/-! ## Unions of logs that were made -/

instance : ReflBEq Condition where
  rfl {c} := show (c.id == c.id) = true from beq_self_eq_true c.id

namespace Registry

variable {r : Registry} {g : Chain.Growth Condition} {log : Log} {parts : List Log} {s : Supply}

/-- The chain under construction is of the registry and goes on at its next node. -/
structure Drafts (r : Registry) (g : Chain.Growth Condition) : Prop where
  next : r.supply.nextNode = g.next
  holds : r.Holds g.chain
  tracks : g.Tracks

theorem reaches_add (h : r.Drafts g) {c : Condition} (hc : c ∈ r.conditions) :
    r.Reaches { r.supply with nextNode := (g.add c).next } fun later => later.Drafts (g.add c) := by
  have tracks := h.tracks.add c
  rw [Chain.Growth.add] at tracks ⊢
  by_cases known : g.seen.contains c = true
  · rw [if_pos known]
    exact ⟨r, by rw [← h.next], .refl r, h⟩
  · rw [if_neg known] at tracks ⊢
    obtain ⟨later, hlater, before, holds⟩ := reaches_node h.holds hc
    rw [h.next] at hlater holds
    exact ⟨later, hlater, before, by rw [hlater], holds, tracks⟩

theorem reaches_addAll (h : r.Drafts g) {cs : List Condition} (hcs : ∀ c ∈ cs, c ∈ r.conditions) :
    r.Reaches { r.supply with nextNode := (cs.foldl Chain.Growth.add g).next } fun later =>
      later.Drafts (cs.foldl Chain.Growth.add g) := by
  induction cs generalizing r g with
  | nil => exact ⟨r, by rw [List.foldl_nil, ← h.next], .refl r, h⟩
  | cons c cs ih =>
    obtain ⟨hc, hcs⟩ := List.forall_mem_cons.1 hcs
    obtain ⟨middle, hmiddle, before, drafts⟩ := reaches_add h hc
    obtain ⟨later, hlater, before', drafts⟩ := ih drafts fun d hd => before.conditions (hcs d hd)
    rw [hmiddle] at hlater
    exact ⟨later, hlater, before.trans before', drafts⟩

theorem Drafts.merge_plain (h : r.Drafts g) (hlog : r.Holds log) :
    (g.merge log).Tracks ∧ g.chain.Begins (g.merge log).chain ∧
      ((log.oldestFirst.Pairwise fun c d => (d == c) = false) →
        (g.merge log).chain.oldestFirst = appendAllNew g.chain.oldestFirst log.oldestFirst) :=
  Chain.Growth.merge_plain h.tracks hlog.measured (hlog.begins_of_grownFrom h.holds)
    (h.holds.begins_of_grownFrom hlog)

theorem reaches_merge (h : r.Drafts g) (hlog : r.Holds log) :
    r.Reaches { r.supply with nextNode := (g.merge log).next } fun later =>
      later.Drafts (g.merge log) := by
  obtain ⟨tracks, -, -⟩ := h.merge_plain hlog
  rw [Chain.Growth.merge] at tracks ⊢
  by_cases longer : log.grownFrom g.chain = true
  · rw [if_pos longer] at tracks ⊢
    exact ⟨r, by rw [← h.next], .refl r, h.next, hlog, tracks⟩
  · rw [if_neg longer]
    by_cases shorter : g.chain.grownFrom log = true
    · rw [if_pos shorter]
      exact ⟨r, by rw [← h.next], .refl r, h⟩
    · rw [if_neg shorter]
      exact reaches_addAll h fun c hc => hlog.conditions c (Chain.mem_oldestFirst.1 hc)

theorem reaches_mergeAll (h : r.Drafts g) (hparts : ∀ log ∈ parts, r.Holds log) :
    r.Reaches { r.supply with nextNode := (parts.foldl Chain.Growth.merge g).next } fun later =>
      later.Drafts (parts.foldl Chain.Growth.merge g) ∧
        g.chain.Begins (parts.foldl Chain.Growth.merge g).chain ∧
        ((∀ log ∈ parts, log.oldestFirst.Pairwise fun c d => (d == c) = false) →
          (parts.foldl Chain.Growth.merge g).chain.oldestFirst =
            (parts.map Chain.oldestFirst).foldl appendAllNew g.chain.oldestFirst) := by
  induction parts generalizing r g with
  | nil => exact ⟨r, by rw [List.foldl_nil, ← h.next], .refl r, h, .refl, fun _ => rfl⟩
  | cons log parts ih =>
    obtain ⟨hlog, hparts⟩ := List.forall_mem_cons.1 hparts
    obtain ⟨-, begins, listed⟩ := h.merge_plain hlog
    obtain ⟨middle, hmiddle, before, drafts⟩ := reaches_merge h hlog
    obtain ⟨later, hlater, before', drafts, begins', listed'⟩ :=
      ih drafts fun other hother => (hparts other hother).grow before.toGrows
    rw [hmiddle] at hlater
    refine ⟨later, hlater, before.trans before', drafts, begins.trans begins', fun distinct => ?_⟩
    obtain ⟨first, distinct⟩ := List.forall_mem_cons.1 distinct
    rw [List.foldl_cons, listed' distinct, listed first, List.map_cons, List.foldl_cons]

/-- The union starts with the first log and lists what the plain union lists. -/
theorem reaches_union {union : Log} (h : (Log.union parts).Yields r.supply union s)
    (hparts : ∀ log ∈ parts, r.Holds log) :
    r.Reaches s fun later => later.Holds union ∧
      (∀ first rest, parts = first :: rest → first.Begins union) ∧
      ((∀ log ∈ parts, log.oldestFirst.Pairwise fun c d => (d == c) = false) →
        union.oldestFirst = plainUnion (parts.map Chain.oldestFirst)) := by
  obtain ⟨rfl, rfl⟩ := Prod.mk.inj (Build.modifyGet_yields.1 h)
  have start : r.Drafts ⟨.empty, [], r.supply.nextNode⟩ := ⟨rfl, .empty r, fun _ => rfl⟩
  obtain ⟨later, hlater, before, drafts, -, listed⟩ := reaches_mergeAll start hparts
  refine ⟨later, hlater, before, drafts.holds, ?_, listed⟩
  rintro first rest rfl
  obtain ⟨hfirst, hrest⟩ := List.forall_mem_cons.1 hparts
  obtain ⟨middle, hmiddle, before, drafts⟩ := reaches_merge start hfirst
  obtain ⟨chain, -⟩ := Chain.Growth.merge_of_begins (g := ⟨.empty, [], r.supply.nextNode⟩)
    first.empty_begins hfirst.measured
  obtain ⟨-, -, -, -, begins, -⟩ := reaches_mergeAll drafts fun other hother =>
    (hrest other hother).grow before.toGrows
  rwa [chain] at begins

end Registry

end MatchAlgebra
