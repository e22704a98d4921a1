import MatchAlgebra.Proofs.Sense
import MatchAlgebra.Table

/-!
# Tables keyed by values

A table keeps the spelling of a key that it was first given.  Its entries up to spelling are the
pairs of a key's sense and what a function makes of the value under it; they come in ascending order
and are determined by what the table answers:

    (v.sense, c) ∈ t.entries f  ↔  t[v]?.map f = some c             (mem_entries)

So a table that answers as a list in ascending order says has the entries of the list, whatever its
history (`entries_eq_of_mem_iff`).

What is asked of the spelling of keys is kept by changing and erasing entries (`KeysAre`).
-/

namespace MatchAlgebra

abbrev ValueTable (β : Type) := Table Value β Value.compare

namespace Table

variable {β γ : Type}

/-- The entries of a table in its order, keys without their spelling. -/
def entries (t : ValueTable β) (f : β → γ) : List (Sense × γ) :=
  t.toList.map fun (k, b) => (k.sense, f b)

theorem ascending_entries (t : ValueTable β) (f : β → γ) :
    (entries t f).Pairwise fun p q => p.1 < q.1 := by
  rw [entries, List.pairwise_map]
  exact t.ordered_keys_toList.imp Sense.lt_iff.2

theorem mem_entries {t : ValueTable β} {f : β → γ} {v : Value} {c : γ} :
    (v.sense, c) ∈ entries t f ↔ t[v]?.map f = some c := by
  simp only [entries, List.mem_map, Option.map_eq_some_iff, Prod.mk.injEq,
    Std.TreeMap.getElem?_eq_some_iff_exists_compare_eq_eq_and_mem_toList]
  constructor
  · rintro ⟨⟨k, b⟩, hmem, hk, rfl⟩
    exact ⟨b, ⟨k, Value.sense_eq_iff_compare.1 hk.symm, hmem⟩, rfl⟩
  · rintro ⟨b, ⟨k, hk, hmem⟩, rfl⟩
    exact ⟨(k, b), hmem, (Value.sense_eq_iff_compare.2 hk).symm, rfl⟩

theorem entries_eq_of_mem_iff {t : ValueTable β} {f : β → γ} {l : List (Sense × γ)}
    (hl : l.Pairwise fun p q => p.1 < q.1)
    (h : ∀ (v : Value) c, (v.sense, c) ∈ l ↔ t[v]?.map f = some c) : entries t f = l := by
  refine Sense.eq_of_ascending (ascending_entries t f) hl fun ⟨s, c⟩ => ?_
  obtain ⟨v, rfl⟩ := s.exists_value
  rw [mem_entries, h]

/-- Equal keys give the same answer. -/
theorem getElem?_congr_key (t : ValueTable β) {v w : Value} (h : v == w) : t[v]? = t[w]? :=
  Std.TreeMap.getElem?_congr ((Value.compare_eq_iff v w).2 h)

theorem getElem?_change_value (t : ValueTable β) (v w : Value) (f : Option β → β) :
    (t.change v f)[w]? = if v == w then some (f t[v]?) else t[w]? := by
  rw [getElem?_change]
  simp only [Value.compare_eq_iff]

theorem getElem?_erase_value (t : ValueTable β) (v w : Value) :
    (t.erase v)[w]? = if v == w then none else t[w]? := by
  rw [Std.TreeMap.getElem?_erase]
  simp only [Value.compare_eq_iff]

theorem getD_of_mem {t : ValueTable β} {entry : Value × β} (h : entry ∈ t.toList) (b : β) :
    t.getD entry.1 b = entry.2 := by
  rw [Std.TreeMap.getD_eq_getD_getElem?,
    (Std.TreeMap.mem_toList_iff_getKey?_eq_some_and_getElem?_eq_some.1 h).2, Option.getD_some]

/-- A table that answers to the spellings of one key only has one entry. -/
theorem toList_eq_singleton {t : ValueTable β} {v : Value} {b : β}
    (found : t[v]? = some b) (only : ∀ w, t[w]?.isSome = true → v == w) :
    ∃ k, t.toList = [(k, b)] := by
  have entries : entries t id = [(v.sense, b)] := by
    refine entries_eq_of_mem_iff (List.pairwise_singleton _ _) fun w c => ?_
    rw [List.mem_singleton, Prod.mk.injEq, Option.map_id, id]
    constructor
    · rintro ⟨same, rfl⟩
      rw [getElem?_congr_key t (Value.sense_inj.1 same), found]
    · intro answer
      have same := only w (answer ▸ rfl)
      rw [getElem?_congr_key t same, answer] at found
      exact ⟨(Value.sense_inj.2 same).symm, Option.some.inj found⟩
  obtain ⟨⟨k, c⟩, listed, heq⟩ := List.map_eq_singleton_iff.1 entries
  obtain ⟨-, rfl⟩ := Prod.mk.inj heq
  exact ⟨k, listed⟩

end Table

/-! ## Keys -/

/-- All keys of the table are as told. -/
def Table.KeysAre {α β : Type} {compare : α → α → Ordering} (Q : α → Prop)
    (table : Table α β compare) : Prop := ∀ k key, table.getKey? k = some key → Q key

namespace Table.KeysAre

variable {α β : Type} {compare : α → α → Ordering} {Q : α → Prop} {table : Table α β compare}

theorem empty : KeysAre Q (∅ : Table α β compare) := by
  intro k key h
  rw [Std.TreeMap.getKey?_emptyc] at h
  cases h

variable [Std.TransCmp compare]

theorem of_mem (h : KeysAre Q table) {entry : α × β} (hentry : entry ∈ table.toList) :
    Q entry.1 :=
  h entry.1 entry.1 (Std.TreeMap.mem_toList_iff_getKey?_eq_some_and_getElem?_eq_some.1 hentry).1

theorem of_mem_keys (h : KeysAre Q table) {key : α} (hkey : key ∈ table.keys) : Q key := by
  rw [← Std.TreeMap.map_fst_toList_eq_keys] at hkey
  obtain ⟨entry, hentry, rfl⟩ := List.mem_map.1 hkey
  exact h.of_mem hentry

/-- A key that is changed keeps its spelling, or is put as it is given. -/
theorem change (h : KeysAre Q table) {key : α} (hkey : Q key) (f : Option β → β) :
    KeysAre Q (Table.change table key f) := by
  have kept : Q (table.getKeyD key key) := by
    rw [Std.TreeMap.getKeyD_eq_getD_getKey?]
    cases hk : table.getKey? key with
    | none => exact hkey
    | some key' => exact h key key' hk
  intro k key' hk
  rw [Table.change, Std.TreeMap.getKey?_insert] at hk
  split at hk
  · cases hk
    exact kept
  · exact h k key' hk

theorem erase (h : KeysAre Q table) (key : α) : KeysAre Q (table.erase key) := by
  intro k key' hk
  rw [Std.TreeMap.getKey?_erase] at hk
  split at hk
  · cases hk
  · exact h k key' hk

end Table.KeysAre

end MatchAlgebra
