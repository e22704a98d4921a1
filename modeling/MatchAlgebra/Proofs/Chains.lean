import MatchAlgebra.Algebra.Chain

/-!
# What unions of chains hold

A chain begins another if the other was grown from it, node by node.  The union of chains that
grow from left to right is the last of them, at no new node, and the union of two chains that have
nothing in common is the one followed by the elements of the other:

    union (cs ++ [last]) next = (last, next)                                    (union_growing)
    union [c, d] next = (c.grow next d.oldestFirst, next + d.oldestFirst.length)  (union_apart)
-/

namespace MatchAlgebra.Chain

variable {α : Type} {start c d : Chain α}

/-! ## Beginnings -/

/-- The chain was grown from `start`. -/
inductive Begins (start : Chain α) : Chain α → Prop
  | refl : Begins start start
  | link {previous : Chain α} {node length : Nat} {last : α} (h : Begins start previous) :
      Begins start (.link previous node length last)

/-- Every node knows how long the chain is up to it. -/
def Measured : Chain α → Prop
  | .empty => True
  | .link previous _ length _ => length = previous.length + 1 ∧ previous.Measured

theorem length_newestFirst (c : Chain α) (h : c.Measured) : c.newestFirst.length = c.length := by
  induction c with
  | empty => rfl
  | link previous node length last ih =>
    rw [newestFirst, List.length_cons, ih h.2]
    exact h.1.symm

theorem empty_begins (c : Chain α) : Chain.empty.Begins c := by
  induction c with
  | empty => exact .refl
  | link previous node length last ih => exact .link ih

namespace Begins

theorem trans (h : start.Begins c) (h' : c.Begins d) : start.Begins d := by
  induction h' with
  | refl => exact h
  | link _ ih => exact .link ih

instance : Trans (@Begins α) (@Begins α) (@Begins α) := ⟨Begins.trans⟩

theorem isSuffix (h : start.Begins c) : start.newestFirst <:+ c.newestFirst := by
  induction h with
  | refl => exact List.suffix_refl _
  | link _ ih => exact ih.trans (List.suffix_cons _ _)

theorem isPrefix (h : start.Begins c) : start.oldestFirst <+: c.oldestFirst :=
  List.reverse_prefix.2 h.isSuffix

theorem subset (h : start.Begins c) : start.newestFirst ⊆ c.newestFirst := h.isSuffix.subset

theorem measured (h : start.Begins c) (hc : c.Measured) : start.Measured := by
  induction h with
  | refl => exact hc
  | link _ ih => exact ih hc.2

theorem length_le (h : start.Begins c) (hc : c.Measured) : start.length ≤ c.length := by
  induction h with
  | refl => exact Nat.le_refl _
  | @link previous node length last _ ih =>
    have le := ih hc.2
    show start.length ≤ length
    have := hc.1
    omega

/-- The beginning is found by its length. -/
theorem beginning_eq (h : start.Begins c) (hc : c.Measured) :
    c.beginning start.length = start := by
  induction h with
  | refl =>
    cases start with
    | empty => rfl
    | link => exact if_pos rfl
  | @link previous node length last h ih =>
    have le := h.length_le hc.2
    have ne : length ≠ start.length := by
      have := hc.1
      omega
    rw [beginning, if_neg ne]
    exact ih hc.2

theorem grownFrom (h : start.Begins c) (hc : c.Measured) : c.grownFrom start = true := by
  rw [Chain.grownFrom, h.beginning_eq hc]
  exact beq_self_eq_true _

end Begins

theorem beginning_begins (target : Nat) (c : Chain α) : (c.beginning target).Begins c := by
  induction c with
  | empty => exact .refl
  | link previous node length last ih =>
    rw [beginning]
    split
    · exact .refl
    · exact .link ih

theorem begins_link {previous : Chain α} {node length : Nat} {last : α}
    (h : start.Begins (.link previous node length last)) :
    start = .link previous node length last ∨ start.Begins previous := by
  cases h with
  | refl => exact .inl rfl
  | link h => exact .inr h

theorem begins_empty (h : start.Begins .empty) : start = .empty := by
  cases h
  rfl

/-! ## Growing -/

/-- Grows a chain by elements at nodes that count up from a number. -/
def grow : Chain α → Nat → List α → Chain α
  | c, _, [] => c
  | c, node, a :: as => (c.append node a).grow (node + 1) as

theorem begins_grow (c : Chain α) (node : Nat) (as : List α) : c.Begins (c.grow node as) := by
  induction as generalizing c node with
  | nil => exact .refl
  | cons a as ih => exact (Begins.link .refl).trans (ih _ _)

theorem oldestFirst_append (c : Chain α) (node : Nat) (a : α) :
    (c.append node a).oldestFirst = c.oldestFirst ++ [a] := List.reverse_cons

theorem mem_oldestFirst {a : α} : a ∈ c.oldestFirst ↔ a ∈ c.newestFirst := List.mem_reverse

theorem oldestFirst_grow (c : Chain α) (node : Nat) (as : List α) :
    (c.grow node as).oldestFirst = c.oldestFirst ++ as := by
  induction as generalizing c node with
  | nil => exact (List.append_nil _).symm
  | cons a as ih => rw [grow, ih, oldestFirst_append, List.append_assoc, List.singleton_append]

/-- A chain of new nodes is grown from the empty one. -/
theorem ofList_eq (as : List α) (next : Nat) :
    ofList as next = (grow .empty next as, next + as.length) := by
  have step : ∀ c : Chain α,
      as.foldl (fun made a => (made.1.append made.2 a, made.2 + 1)) (c, next) =
        (c.grow next as, next + as.length) := by
    induction as generalizing next with
    | nil => exact fun _ => rfl
    | cons a as ih =>
      intro c
      rw [List.foldl_cons, ih, List.length_cons, grow, Nat.add_assoc, Nat.add_comm 1]
  exact step .empty

/-! ## Unions -/

section
variable [BEq α]

theorem Growth.merge_of_begins {g : Growth α} (h : g.chain.Begins c) (hc : c.Measured) :
    (g.merge c).chain = c ∧ (g.merge c).next = g.next := by
  rw [Growth.merge, if_pos (h.grownFrom hc)]
  exact ⟨rfl, rfl⟩

theorem Growth.foldl_merge_growing {g : Growth α} {cs : List (Chain α)} {last : Chain α}
    (h : (g.chain :: (cs ++ [last])).Pairwise Begins) (hlast : last.Measured) :
    ((cs ++ [last]).foldl Growth.merge g).chain = last ∧
      ((cs ++ [last]).foldl Growth.merge g).next = g.next := by
  rw [List.pairwise_cons] at h
  obtain ⟨hg, h⟩ := h
  induction cs generalizing g with
  | nil => exact Growth.merge_of_begins (hg last (List.mem_singleton.2 rfl)) hlast
  | cons c cs ih =>
    rw [List.cons_append, List.pairwise_cons] at h
    have hc : c.Begins last := h.1 last (List.mem_append_right _ List.mem_cons_self)
    obtain ⟨chain, next⟩ := Growth.merge_of_begins (hg c List.mem_cons_self) (hc.measured hlast)
    rw [List.cons_append, List.foldl_cons, ← next]
    refine ih ?_ h.2
    rw [chain]
    exact h.1

/-- The union of chains that grow from left to right is the last of them. -/
theorem union_growing {cs : List (Chain α)} {last : Chain α}
    (h : (cs ++ [last]).Pairwise Begins) (hlast : last.Measured) (next : Nat) :
    union (cs ++ [last]) next = (last, next) := by
  obtain ⟨chain, node⟩ := Growth.foldl_merge_growing (g := ⟨.empty, [], next⟩)
    (List.pairwise_cons.2 ⟨fun c _ => c.empty_begins, h⟩) hlast
  exact Prod.ext chain node

theorem Growth.foldl_add {g : Growth α} (as : List α)
    (hnew : ∀ a ∈ as, g.seen.contains a = false)
    (hnodup : as.Pairwise fun a b => (b == a) = false) :
    (as.foldl Growth.add g).chain = g.chain.grow g.next as ∧
      (as.foldl Growth.add g).next = g.next + as.length := by
  induction as generalizing g with
  | nil => exact ⟨rfl, rfl⟩
  | cons a as ih =>
    obtain ⟨ha, has⟩ := List.forall_mem_cons.1 hnew
    rw [List.pairwise_cons] at hnodup
    have added : g.add a = ⟨g.chain.append g.next a, a :: g.seen, g.next + 1⟩ := by
      rw [Growth.add, ha]
      rfl
    obtain ⟨chain, next⟩ := ih (g := g.add a) (fun b hb => by
      rw [added, List.contains_cons, hnodup.1 b hb, has b hb]
      rfl) hnodup.2
    rw [added] at chain next
    rw [List.foldl_cons, added]
    refine ⟨chain, next.trans ?_⟩
    rw [List.length_cons]
    show g.next + 1 + as.length = _
    omega

/-- The union of chains that have nothing in common is one after the other. -/
theorem union_apart (hc : c.Measured) (hgrown : d.grownFrom c = false)
    (hgrown' : c.grownFrom d = false)
    (hnew : ∀ a ∈ c.newestFirst, ∀ b ∈ d.newestFirst, (b == a) = false)
    (hnodup : d.oldestFirst.Pairwise fun a b => (b == a) = false) (next : Nat) :
    union [c, d] next = (c.grow next d.oldestFirst, next + d.oldestFirst.length) := by
  have first : Growth.merge ⟨.empty, [], next⟩ c =
      ⟨c, c.newestFirst.take (c.length - 0) ++ [], next⟩ := by
    rw [Growth.merge, if_pos (c.empty_begins.grownFrom hc)]
    rfl
  obtain ⟨chain, node⟩ := Growth.foldl_add
    (g := ⟨c, c.newestFirst.take (c.length - 0) ++ [], next⟩) d.oldestFirst
    (fun b hb => by
      rw [List.append_nil, List.contains_eq_any_beq, List.any_eq_false]
      intro a ha
      rw [hnew a (List.mem_of_mem_take ha) b (mem_oldestFirst.1 hb)]
      exact Bool.false_ne_true) hnodup
  rw [union, List.foldl_cons, List.foldl_cons, List.foldl_nil, first, Growth.merge, hgrown,
    hgrown']
  exact Prod.ext chain node

end

end MatchAlgebra.Chain
