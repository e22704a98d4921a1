import Std.Data.TreeMap.Lemmas

/-!
# Tables

Tables with their keys in an order.  Keys that the order takes for equal are one key, in whatever
spelling, and a table keeps the spelling it was first given: `change` leaves the key of an entry as
it is.

    (table.change key f)[key]?  =  some (f table[key]?)      (getElem?_change)
-/

namespace MatchAlgebra

abbrev Table (α β : Type) (compare : α → α → Ordering) := Std.TreeMap α β compare

namespace Table

variable {α β : Type} {compare : α → α → Ordering}

/-- Changes the entry of `key`, and makes one if there is none. -/
def change (table : Table α β compare) (key : α) (f : Option β → β) : Table α β compare :=
  table.insert (table.getKeyD key key) (f table[key]?)

variable [Std.TransCmp compare]

theorem compare_getKeyD_self (table : Table α β compare) (key : α) :
    compare (table.getKeyD key key) key = .eq := by
  by_cases h : key ∈ table
  · rw [← Std.TreeMap.getKey_eq_getKeyD (h := h)]
    exact Std.TreeMap.compare_getKey_self h
  · rw [Std.TreeMap.getKeyD_eq_fallback h]
    exact Std.ReflCmp.compare_self

theorem getElem?_change (table : Table α β compare) (key other : α) (f : Option β → β) :
    (table.change key f)[other]? =
      if compare key other = .eq then some (f table[key]?) else table[other]? := by
  rw [change, Std.TreeMap.getElem?_insert,
    Std.TransCmp.congr_left (compare_getKeyD_self table key)]

end Table

end MatchAlgebra
