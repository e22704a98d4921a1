import MatchAlgebra.Proofs.Unions

/-!
# Logs that share nodes

A log shares its nodes with the logs that it was grown from.  Whatever logs were made, by appending,
collecting and uniting in any order, one of them was grown from another just where the other ends in
one of its nodes:

    a.grownFrom b  ↔  b = .empty ∨ ∃ n, b.node? = some n ∧ n ∈ a.nodes      (Made.grownFrom_iff)

`grownFrom` looks at a single node, which it finds by the lengths kept in the nodes.  That this is
the right one rests on two facts about everything that is made: each node knows how many nodes it is
from the start, and each gets a number that none before it had.  The registry holds both.
-/

namespace MatchAlgebra

/-! ## Nodes -/

namespace Chain

variable {α : Type} {start c : Chain α}

/-- The numbers of the nodes, the last one first. -/
def nodes : Chain α → List Nat
  | .empty => []
  | .link previous node _ _ => node :: previous.nodes

theorem length_nodes (h : c.Measured) : c.nodes.length = c.length := by
  induction c with
  | empty => rfl
  | link previous node length last ih =>
    rw [nodes, List.length_cons, ih h.2]
    exact h.1.symm

theorem mem_nodes {n : Nat} :
    n ∈ c.nodes ↔ ∃ part : Chain α, part.Begins c ∧ part.node? = some n := by
  induction c with
  | empty =>
    constructor
    · intro h
      cases h
    · rintro ⟨part, begins, node⟩
      rw [begins_empty begins] at node
      cases node
  | link previous node length last ih =>
    rw [nodes, List.mem_cons, ih]
    constructor
    · rintro (rfl | ⟨part, begins, hn⟩)
      · exact ⟨_, .refl, rfl⟩
      · exact ⟨part, .link begins, hn⟩
    · rintro ⟨part, begins, hn⟩
      rcases begins_link begins with rfl | begins
      · exact .inl (Option.some.inj hn).symm
      · exact .inr ⟨part, begins, hn⟩

/-- A beginning that is not shorter is the whole chain. -/
theorem Begins.eq_of_length_le (h : start.Begins c) (hc : c.Measured)
    (length : c.length ≤ start.length) : start = c := by
  cases h with
  | refl => rfl
  | @link previous node n last h =>
    have shorter := h.length_le hc.2
    have grown := hc.1
    have longer : n ≤ start.length := length
    omega

theorem Begins.antisymm (h : start.Begins c) (h' : c.Begins start) (hc : c.Measured) : start = c :=
  h.eq_of_length_le hc (h'.length_le (h.measured hc))

end Chain

/-- Each node of a log has a number of its own. -/
theorem Registry.Holds.nodup_nodes {r : Registry} {log : Log} (h : r.Holds log) :
    log.nodes.Nodup := by
  induction log with
  | empty => exact List.nodup_nil
  | link previous node length last ih =>
    have begins : previous.Begins (.link previous node length last) := .link .refl
    refine List.nodup_cons.2 ⟨fun again => ?_, ih (h.part begins)⟩
    -- the earlier node would be the last one, and the chain longer than itself
    obtain ⟨part, part_begins, same⟩ := Chain.mem_nodes.1 again
    have whole := (h.part (part_begins.trans begins)).eq_of_node? h same
    have shorter := part_begins.length_le h.measured.2
    rw [whole] at shorter
    have grown := h.measured.1
    have longer : length ≤ previous.length := shorter
    omega

/-! ## Logs that share nodes -/

namespace Log

/-- The conditions and the logs that have been made when a supply is reached.  Logs may be used any
number of times, and in between other things may be made that only use up numbers. -/
inductive Made : Supply → List Condition → List Log → Prop
  | start (s : Supply) : Made s [] []
  | other {s s' : Supply} {cs : List Condition} {logs : List Log} (h : Made s cs logs)
      (later : s.Onward s') : Made s' cs logs
  | step {s s' : Supply} {cs : List Condition} {logs : List Log} {step : Step} {c : Condition}
      (h : Made s cs logs) (makes : (newStep step).Yields s c s') : Made s' (c :: cs) logs
  | group {s s' : Supply} {cs input : List Condition} {logs : List Log} {grouping : Grouping}
      {c : Condition} (h : Made s cs logs) (known : ∀ d ∈ input, d ∈ cs)
      (makes : (newGroup grouping input).Yields s c s') : Made s' (c :: cs) logs
  | empty {s : Supply} {cs : List Condition} {logs : List Log} (h : Made s cs logs) :
      Made s cs (.empty :: logs)
  | append {s s' : Supply} {cs : List Condition} {logs : List Log} {log log' : Log} {c : Condition}
      (h : Made s cs logs) (known : log ∈ logs) (condition : c ∈ cs)
      (makes : (Log.append log c).Yields s log' s') : Made s' cs (log' :: logs)
  | collect {s s' : Supply} {cs collected : List Condition} {logs : List Log} {log : Log}
      (h : Made s cs logs) (conditions : ∀ c ∈ collected, c ∈ cs)
      (makes : (Log.ofList collected).Yields s log s') : Made s' cs (log :: logs)
  | union {s s' : Supply} {cs : List Condition} {logs parts : List Log} {log : Log}
      (h : Made s cs logs) (known : ∀ part ∈ parts, part ∈ logs)
      (makes : (Log.union parts).Yields s log s') : Made s' cs (log :: logs)

/-- All that was made is in the registry. -/
structure HeldBy (cs : List Condition) (logs : List Log) (r : Registry) : Prop where
  conditions : ∀ c ∈ cs, c ∈ r.conditions
  logs : ∀ log ∈ logs, r.Holds log

namespace HeldBy

variable {cs : List Condition} {logs : List Log} {r later : Registry}

theorem grow (h : HeldBy cs logs r) (grows : r.Grows later) : HeldBy cs logs later :=
  ⟨fun c hc => grows.conditions (h.conditions c hc), fun log hlog => (h.logs log hlog).grow grows⟩

theorem condition (h : HeldBy cs logs r) {c : Condition} (hc : c ∈ r.conditions) :
    HeldBy (c :: cs) logs r :=
  ⟨List.forall_mem_cons.2 ⟨hc, h.conditions⟩, h.logs⟩

theorem log (h : HeldBy cs logs r) {log : Log} (hlog : r.Holds log) : HeldBy cs (log :: logs) r :=
  ⟨h.conditions, List.forall_mem_cons.2 ⟨hlog, h.logs⟩⟩

end HeldBy

theorem Made.exists_registry {s : Supply} {cs : List Condition} {logs : List Log}
    (h : Made s cs logs) : ∃ r : Registry, r.supply = s ∧ HeldBy cs logs r := by
  induction h with
  | start s =>
    exact ⟨.new s, rfl, fun _ hc => absurd hc List.not_mem_nil,
      fun _ hlog => absurd hlog List.not_mem_nil⟩
  | other _ later ih =>
    obtain ⟨r, rfl, held⟩ := ih
    obtain ⟨r', hr', grows⟩ := r.exists_of_onward later
    exact ⟨r', hr', held.grow grows⟩
  | step _ makes ih =>
    obtain ⟨r, rfl, held⟩ := ih
    obtain ⟨r', hr', before, hc, -⟩ := Registry.reaches_newStep makes
    exact ⟨r', hr', (held.grow before.toGrows).condition hc⟩
  | group _ known makes ih =>
    obtain ⟨r, rfl, held⟩ := ih
    obtain ⟨r', hr', before, hc, -⟩ :=
      Registry.reaches_newGroup makes fun d hd => held.conditions d (known d hd)
    exact ⟨r', hr', (held.grow before.toGrows).condition hc⟩
  | empty _ ih =>
    obtain ⟨r, rfl, held⟩ := ih
    exact ⟨r, rfl, held.log (.empty r)⟩
  | append _ known condition makes ih =>
    obtain ⟨r, rfl, held⟩ := ih
    obtain ⟨rfl, rfl⟩ := Prod.mk.inj (Build.modifyGet_yields.1 makes)
    obtain ⟨r', hr', before, new⟩ :=
      Registry.reaches_node (held.logs _ known) (held.conditions _ condition)
    exact ⟨r', hr', (held.grow before.toGrows).log new⟩
  | collect _ conditions makes ih =>
    obtain ⟨r, rfl, held⟩ := ih
    have made := Build.modifyGet_yields.1 makes
    rw [Chain.ofList_eq] at made
    obtain ⟨rfl, rfl⟩ := Prod.mk.inj made
    obtain ⟨r', hr', before, new⟩ :=
      Registry.reaches_nodes (.empty r) fun c hc => held.conditions c (conditions c hc)
    exact ⟨r', hr', (held.grow before.toGrows).log new⟩
  | union _ known makes ih =>
    obtain ⟨r, rfl, held⟩ := ih
    obtain ⟨r', hr', before, new, -⟩ :=
      Registry.reaches_union makes fun log hlog => held.logs log (known log hlog)
    exact ⟨r', hr', (held.grow before.toGrows).log new⟩

end Log

/-! ## The order of logs -/

namespace Log

namespace Made

variable {s : Supply} {cs : List Condition} {logs : List Log} {a b c : Log}

theorem measured (made : Made s cs logs) (ha : a ∈ logs) : a.Measured := by
  obtain ⟨r, -, held⟩ := made.exists_registry
  exact (held.logs a ha).measured

theorem grownFrom_iff_begins (made : Made s cs logs) (ha : a ∈ logs) (hb : b ∈ logs) :
    a.grownFrom b = true ↔ b.Begins a := by
  obtain ⟨r, -, held⟩ := made.exists_registry
  exact (held.logs a ha).grownFrom_iff_begins (held.logs b hb)

/-- One log was grown from another just where the other ends in one of its nodes. -/
theorem grownFrom_iff (made : Made s cs logs) (ha : a ∈ logs) (hb : b ∈ logs) :
    a.grownFrom b = true ↔ b = .empty ∨ ∃ n, b.node? = some n ∧ n ∈ a.nodes := by
  rw [made.grownFrom_iff_begins ha hb]
  constructor
  · intro begins
    cases b with
    | empty => exact .inl rfl
    | link previous node length last =>
      exact .inr ⟨node, rfl, Chain.mem_nodes.2 ⟨_, begins, rfl⟩⟩
  · rintro (rfl | ⟨n, node, hn⟩)
    · exact a.empty_begins
    · obtain ⟨r, -, held⟩ := made.exists_registry
      obtain ⟨part, begins, same⟩ := Chain.mem_nodes.1 hn
      have holds := (held.logs a ha).part begins
      rwa [← holds.eq_of_node? (held.logs b hb) (same.trans node.symm)]

theorem grownFrom_trans (made : Made s cs logs) (ha : a ∈ logs) (hb : b ∈ logs) (hc : c ∈ logs)
    (hab : a.grownFrom b = true) (hbc : b.grownFrom c = true) : a.grownFrom c = true := by
  rw [made.grownFrom_iff_begins ha hb] at hab
  rw [made.grownFrom_iff_begins hb hc] at hbc
  rw [made.grownFrom_iff_begins ha hc]
  exact hbc.trans hab

/-- Logs grown from one another end in the same node, and then they are one log. -/
theorem grownFrom_both_iff (made : Made s cs logs) (ha : a ∈ logs) (hb : b ∈ logs) :
    (a.grownFrom b = true ∧ b.grownFrom a = true) ↔ a.node? = b.node? := by
  rw [made.grownFrom_iff_begins ha hb, made.grownFrom_iff_begins hb ha]
  constructor
  · rintro ⟨begins, begins'⟩
    rw [begins.antisymm begins' (made.measured ha)]
  · intro same
    obtain ⟨r, -, held⟩ := made.exists_registry
    rw [(held.logs a ha).eq_of_node? (held.logs b hb) same]
    exact ⟨.refl, .refl⟩

/-- Logs of equal length that end in different nodes were not grown from one another. -/
theorem grownFrom_eq_false (made : Made s cs logs) (ha : a ∈ logs) (hb : b ∈ logs)
    (different : a.node? ≠ b.node?) (length : a.oldestFirst.length = b.oldestFirst.length) :
    a.grownFrom b = false := by
  have measured_a := made.measured ha
  have measured_b := made.measured hb
  rw [Bool.eq_false_iff]
  intro grown
  have begins := (made.grownFrom_iff_begins ha hb).1 grown
  rw [Chain.oldestFirst, Chain.oldestFirst, List.length_reverse, List.length_reverse,
    a.length_newestFirst measured_a, b.length_newestFirst measured_b] at length
  have same := begins.eq_of_length_le measured_a (Nat.le_of_eq length)
  exact different (congrArg Chain.node? same.symm)

/-- Logs that list equal conditions at different nodes were not grown from one another. -/
theorem grownFrom_eq_false_of_equal (made : Made s cs logs) (ha : a ∈ logs) (hb : b ∈ logs)
    (different : a.node? ≠ b.node?) (equal : (a.oldestFirst == b.oldestFirst) = true) :
    a.grownFrom b = false ∧ b.grownFrom a = false := by
  have length := List.length_eq_of_beq equal
  exact ⟨made.grownFrom_eq_false ha hb different length,
    made.grownFrom_eq_false hb ha different.symm length.symm⟩

/-- The number of a node is below that of the next one. -/
theorem node?_ne_next (made : Made s cs logs) (ha : a ∈ logs) : a.node? ≠ some s.nextNode := by
  obtain ⟨r, rfl, held⟩ := made.exists_registry
  intro node
  rcases (held.logs a ha).nodes a .refl with rfl | filed
  · cases node
  · obtain ⟨n, hn, same⟩ := r.nodes a filed
    have next := Option.some.inj (same.symm.trans node)
    omega

/-- Appending makes a node that no log had. -/
theorem node?_ne_of_append (made : Made s cs logs) (ha : a ∈ logs) {log : Log} {d : Condition}
    {s' : Supply} (appends : (Log.append log d).Yields s b s') : a.node? ≠ b.node? := by
  obtain ⟨rfl, -⟩ := Prod.mk.inj (Build.modifyGet_yields.1 appends)
  exact made.node?_ne_next ha

/-- The length kept in a node is right. -/
theorem length_eq (made : Made s cs logs) (ha : a ∈ logs) {part : Log} (begins : part.Begins a) :
    part.length = part.nodes.length ∧ part.nodes.Nodup := by
  obtain ⟨r, -, held⟩ := made.exists_registry
  have holds := (held.logs a ha).part begins
  exact ⟨(Chain.length_nodes holds.measured).symm, holds.nodup_nodes⟩

end Made

/-- What `grownFrom` tells of the logs that were made. -/
structure PrefixOrder (s : Supply) (cs : List Condition) (logs : List Log) : Prop where
  /-- the length kept in a node is the number of nodes up to it, each of them counted once -/
  length : ∀ log ∈ logs, ∀ part : Log, part.Begins log →
    part.length = part.nodes.length ∧ part.nodes.Nodup
  shares : ∀ a ∈ logs, ∀ b ∈ logs,
    a.grownFrom b = true ↔ b = .empty ∨ ∃ n, b.node? = some n ∧ n ∈ a.nodes
  refl : ∀ a ∈ logs, a.grownFrom a = true
  trans : ∀ a ∈ logs, ∀ b ∈ logs, ∀ c ∈ logs,
    a.grownFrom b = true → b.grownFrom c = true → a.grownFrom c = true
  antisymm : ∀ a ∈ logs, ∀ b ∈ logs,
    (a.grownFrom b = true ∧ b.grownFrom a = true) ↔ a.node? = b.node?
  isPrefix : ∀ a ∈ logs, ∀ b ∈ logs, a.grownFrom b = true → b.oldestFirst <+: a.oldestFirst
  /-- equal conditions at different nodes -/
  apart : ∀ a ∈ logs, ∀ b ∈ logs, a.node? ≠ b.node? →
    (a.oldestFirst == b.oldestFirst) = true → a.grownFrom b = false ∧ b.grownFrom a = false
  /-- equal conditions in a log that was there before and in one that was appended to since -/
  rebuilt : ∀ a ∈ logs, ∀ log ∈ logs, ∀ c ∈ cs, ∀ b s', (Log.append log c).Yields s b s' →
    (a.oldestFirst == b.oldestFirst) = true → a.grownFrom b = false ∧ b.grownFrom a = false

/-- **Logs are ordered by the nodes that they share**, and not by the conditions that they list. -/
theorem prefixOrder_of_made {s : Supply} {cs : List Condition} {logs : List Log}
    (made : Made s cs logs) : PrefixOrder s cs logs where
  length _ hlog _ begins := made.length_eq hlog begins
  shares _ ha _ hb := made.grownFrom_iff ha hb
  refl _ ha := Chain.Begins.refl.grownFrom (made.measured ha)
  trans _ ha _ hb _ hc := made.grownFrom_trans ha hb hc
  antisymm _ ha _ hb := made.grownFrom_both_iff ha hb
  isPrefix _ ha _ hb grown := ((made.grownFrom_iff_begins ha hb).1 grown).isPrefix
  apart _ ha _ hb := made.grownFrom_eq_false_of_equal ha hb
  rebuilt _ ha _ hlog _ hc _ _ appends :=
    (made.append hlog hc appends).grownFrom_eq_false_of_equal (List.mem_cons_of_mem _ ha)
      List.mem_cons_self (made.node?_ne_of_append ha appends)

/-- The same two conditions appended once more, at nodes of their own. -/
theorem prefixOrder_of_made_twice :
    let type : FactType := ⟨"T"⟩
    let v : Variable := ⟨⟨1, 1⟩, "t_1", .fact type⟩
    let first : Condition := .step 1 (.pattern v type)
    let second : Condition := .step 2 (.filter [v] fun _ => true)
    let start : Log := .link .empty 0 1 first
    let log : Log := .link start 1 2 second
    let other : Log := .link (.link .empty 2 1 first) 3 2 second
    let s : Supply := { drawn := 2, nextNode := 4 }
    ∃ logs, log ∈ logs ∧ start ∈ logs ∧ other ∈ logs ∧ Made s [second, first] logs ∧
      PrefixOrder s [second, first] logs ∧ log.grownFrom start = true ∧
      (log.oldestFirst == other.oldestFirst) = true ∧ log.grownFrom other = false ∧
      other.grownFrom start = false := by
  intro type v first second start log other s
  let s₁ : Supply := { drawn := 1 }
  let s₂ : Supply := { drawn := 2 }
  let s₃ : Supply := { drawn := 2, nextNode := 1 }
  let s₄ : Supply := { drawn := 2, nextNode := 2 }
  have makes₁ : (newStep (.pattern v type)).Yields {} first s₁ := rfl
  have makes₂ : (newStep (.filter [v] fun _ => true)).Yields s₁ second s₂ := rfl
  have makes₃ : (Log.append .empty first).Yields s₂ start s₃ := rfl
  have makes₄ : (Log.append start second).Yields s₃ log s₄ := rfl
  have makes₅ : (Log.ofList [first, second]).Yields s₄ other s := rfl
  have made₂ := ((Made.start {}).step makes₁).step makes₂
  have made₄ := (made₂.empty.append List.mem_cons_self (by simp) makes₃).append
    List.mem_cons_self List.mem_cons_self makes₄
  have made₅ := made₄.collect (by simp) makes₅
  have order := prefixOrder_of_made made₅
  have equal : (log.oldestFirst == other.oldestFirst) = true := rfl
  obtain ⟨apart, -⟩ := order.apart log (by simp) other (by simp) (by decide) equal
  exact ⟨_, by simp, by simp, by simp, made₅, order, rfl, equal, apart, rfl⟩

end Log

end MatchAlgebra
