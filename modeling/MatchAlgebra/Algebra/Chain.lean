/-!
# Chains

A chain is a list that grows at its end and shares its beginning.  Each link is a node of its own:
it carries a number that no other node has and remembers how long the chain is up to it.  So whether
one chain was grown from another shows at a single node, and two chains that merely hold the same
elements are told apart.

`union` merges chains without repeating an element.  Where one chain was grown from the other it
takes the longer one as it is, sharing all of it.
-/

namespace MatchAlgebra

inductive Chain (α : Type) where
  | empty
  | link (previous : Chain α) (node : Nat) (length : Nat) (last : α)

namespace Chain

variable {α : Type}

def length : Chain α → Nat
  | .empty => 0
  | .link _ _ length _ => length

def isEmpty : Chain α → Bool
  | .empty => true
  | .link .. => false

/-- The number of the last node. -/
def node? : Chain α → Option Nat
  | .empty => none
  | .link _ node _ _ => some node

def last? : Chain α → Option α
  | .empty => none
  | .link _ _ _ last => some last

def newestFirst : Chain α → List α
  | .empty => []
  | .link previous _ _ last => last :: previous.newestFirst

def oldestFirst (chain : Chain α) : List α := chain.newestFirst.reverse

/-- Grows a chain by one element at a node of the given number. -/
def append (chain : Chain α) (node : Nat) (a : α) : Chain α :=
  .link chain node (chain.length + 1) a

def contains [BEq α] (chain : Chain α) (a : α) : Bool := chain.newestFirst.any (· == a)

/-! ## Sharing -/

/-- The beginning of a chain that is `target` long, or nothing if no node ends there. -/
def beginning (target : Nat) : Chain α → Chain α
  | .empty => .empty
  | .link previous node length last =>
    if length = target then .link previous node length last else previous.beginning target

/-- Whether the chain was grown from `start`.  Every chain was grown from itself and from the empty
one. -/
def grownFrom (chain start : Chain α) : Bool :=
  (chain.beginning start.length).node? == start.node?

/-! ## Union -/

/-- A chain under construction: the chain, the elements it holds and the number of the next node. -/
structure Growth (α : Type) where
  chain : Chain α
  seen : List α
  next : Nat

namespace Growth

variable [BEq α]

/-- Appends an element unless it is there. -/
def add (g : Growth α) (a : α) : Growth α :=
  if g.seen.contains a then g
  else ⟨g.chain.append g.next a, a :: g.seen, g.next + 1⟩

def merge (g : Growth α) (chain : Chain α) : Growth α :=
  if chain.grownFrom g.chain then
    { g with
      chain
      seen := chain.newestFirst.take (chain.length - g.chain.length) ++ g.seen }
  else if g.chain.grownFrom chain then g
  else chain.oldestFirst.foldl add g

end Growth

/-- The elements of all chains, chain by chain, without repetition, and the number of the next
node. -/
def union [BEq α] (chains : List (Chain α)) (next : Nat) : Chain α × Nat :=
  let g := chains.foldl Growth.merge ⟨.empty, [], next⟩
  (g.chain, g.next)

/-- A chain of new nodes, and the number of the next node. -/
def ofList (as : List α) (next : Nat) : Chain α × Nat :=
  as.foldl (fun (chain, next) a => (chain.append next a, next + 1)) (.empty, next)

end Chain

end MatchAlgebra
