import MatchAlgebra.Proofs.Entries

/-!
# Two runs side by side

Two computations that fail and keep a state are twins if they come out alike wherever they are
started alike: both fail with one error or both give results that correspond, and the states that
they leave correspond too.

    Twin S R m m'  →  (R a a' → Twin S Q (f a) (f' a'))  →  Twin S Q (m >>= f) (m' >>= f')   (bind)

Tables are alike if they have the same keys, in one spelling, and corresponding values under them.
They list their entries in step (`Table.Alike.toList`).
-/

namespace MatchAlgebra

section
variable {ε σ τ α β γ δ : Type}

/-- The same error, or results that correspond. -/
inductive SameOutcome (R : α → β → Prop) : Except ε α → Except ε β → Prop
  | error (e : ε) : SameOutcome R (.error e) (.error e)
  | ok {a : α} {b : β} (h : R a b) : SameOutcome R (.ok a) (.ok b)

namespace SameOutcome

variable {R : α → β → Prop} {Q : γ → δ → Prop} {x : Except ε α} {y : Except ε β}

theorem of_eq {r r' : Except ε α} (h : r = r') : SameOutcome (· = ·) r r' := by
  rw [h]
  cases r' with
  | error e => exact .error e
  | ok a => exact .ok rfl

theorem eq {r r' : Except ε α} (h : SameOutcome (· = ·) r r') : r = r' := by
  cases h with
  | error e => rfl
  | ok h => rw [h]

theorem imp {R' : α → β → Prop} (h : SameOutcome R x y) (himp : ∀ a b, R a b → R' a b) :
    SameOutcome R' x y := by
  cases h with
  | error e => exact .error e
  | ok h => exact .ok (himp _ _ h)

theorem map (h : SameOutcome R x y) {f : α → γ} {g : β → δ} (hfg : ∀ a b, R a b → Q (f a) (g b)) :
    SameOutcome Q (x.map f) (y.map g) := by
  cases h with
  | error e => exact .error e
  | ok h => exact .ok (hfg _ _ h)

end SameOutcome

/-- The computation can give the result. -/
def Gives (m : ExceptT ε (StateM σ) α) (a : α) : Prop := ∃ s s', m.run.run s = (.ok a, s')

/-- Started in corresponding states, both computations come out alike and leave corresponding
states. -/
def Twin (S : σ → τ → Prop) (R : α → β → Prop) (m : ExceptT ε (StateM σ) α)
    (m' : ExceptT ε (StateM τ) β) : Prop :=
  ∀ s s', S s s' → SameOutcome R (m.run.run s).1 (m'.run.run s').1 ∧
    S (m.run.run s).2 (m'.run.run s').2

namespace Twin

variable {S : σ → τ → Prop} {R : α → β → Prop} {Q : γ → δ → Prop}

theorem refl (m : ExceptT ε (StateM σ) α) : Twin (· = ·) (· = ·) m m := by
  rintro s _ rfl
  exact ⟨.of_eq rfl, rfl⟩

theorem pure {a : α} {b : β} (h : R a b) :
    Twin S R (Pure.pure a : ExceptT ε (StateM σ) α) (Pure.pure b) :=
  fun _ _ hs => ⟨.ok h, hs⟩

/-- Computations that do not touch the state. -/
theorem ofExcept {r : Except ε α} {r' : Except ε β} (h : SameOutcome R r r') :
    Twin S R (ExceptT.mk (Pure.pure r) : ExceptT ε (StateM σ) α) (ExceptT.mk (Pure.pure r')) :=
  fun _ _ hs => ⟨h, hs⟩

/-- Computations that do not fail. -/
theorem lift {m : StateM σ α} {m' : StateM τ β}
    (h : ∀ s s', S s s' → R (m.run s).1 (m'.run s').1 ∧ S (m.run s).2 (m'.run s').2) :
    Twin S R (liftM m : ExceptT ε (StateM σ) α) (liftM m') :=
  fun s s' hs => ⟨.ok (h s s' hs).1, (h s s' hs).2⟩

/-- What comes next need only be alike for what the first can give. -/
theorem bind {m : ExceptT ε (StateM σ) α} {m' : ExceptT ε (StateM τ) β}
    {f : α → ExceptT ε (StateM σ) γ} {f' : β → ExceptT ε (StateM τ) δ} (h : Twin S R m m')
    (hf : ∀ a b, R a b → Gives m a → Twin S Q (f a) (f' b)) : Twin S Q (m >>= f) (m' >>= f') := by
  intro s s' hs
  obtain ⟨outcome, states⟩ := h s s' hs
  have gives : ∀ a, (m.run.run s).1 = .ok a → Gives m a := fun a ha => ⟨s, _, Prod.ext ha rfl⟩
  rw [ExceptT.run_bind, StateT.run_bind, ExceptT.run_bind, StateT.run_bind]
  generalize m.run.run s = out at outcome states gives
  generalize m'.run.run s' = out' at outcome states
  obtain ⟨r, t⟩ := out
  obtain ⟨r', t'⟩ := out'
  cases outcome with
  | error e => exact ⟨.error e, states⟩
  | ok hab => exact hf _ _ hab (gives _ rfl) t t' states

theorem imp {m : ExceptT ε (StateM σ) α} {m' : ExceptT ε (StateM τ) β} {R' : α → β → Prop}
    (h : Twin S R m m') (himp : ∀ a b, R a b → R' a b) : Twin S R' m m' :=
  fun s s' hs => ⟨(h s s' hs).1.imp himp, (h s s' hs).2⟩

end Twin

/-! ## Lists in step -/

variable {l : List α} {l' : List β}

theorem forall₂_imp_of_mem {R Q : α → β → Prop} (h : List.Forall₂ R l l')
    (himp : ∀ a ∈ l, ∀ b, R a b → Q a b) : List.Forall₂ Q l l' := by
  induction h with
  | nil => exact .nil
  | cons hab _ ih =>
    rw [List.forall_mem_cons] at himp
    exact .cons (himp.1 _ hab) (ih himp.2)

theorem flatMap_eq_of_forall₂ {f : α → List γ} {g : β → List γ}
    (h : List.Forall₂ (fun a b => f a = g b) l l') : l.flatMap f = l'.flatMap g := by
  rw [List.flatMap_def, List.flatMap_def, map_eq_map_iff.2 h]

end

/-! ## Tables -/

/-- The tables have the same keys, in one spelling, and under them what corresponds. -/
structure Table.Alike {α β γ : Type} {compare : α → α → Ordering} (R : β → γ → Prop)
    (t : Table α β compare) (t' : Table α γ compare) : Prop where
  keys : ∀ k : α, t.getKey? k = t'.getKey? k
  values : ∀ k : α, Option.Rel R t[k]? t'[k]?

namespace Table.Alike

variable {α β γ : Type} {compare : α → α → Ordering} [Std.TransCmp compare] {R : β → γ → Prop}
  {t : Table α β compare} {t' : Table α γ compare}

theorem empty : Alike R (∅ : Table α β compare) ∅ where
  keys k := by rw [Std.TreeMap.getKey?_emptyc, Std.TreeMap.getKey?_emptyc]
  values k := by
    rw [Std.TreeMap.getElem?_emptyc, Std.TreeMap.getElem?_emptyc]
    exact .none

theorem insert (h : Alike R t t') (key : α) {b : β} {c : γ} (hbc : R b c) :
    Alike R (t.insert key b) (t'.insert key c) where
  keys k := by rw [Std.TreeMap.getKey?_insert, Std.TreeMap.getKey?_insert, h.keys]
  values k := by
    rw [Std.TreeMap.getElem?_insert, Std.TreeMap.getElem?_insert]
    split
    · exact .some hbc
    · exact h.values k

theorem change (h : Alike R t t') (key : α) {f : Option β → β} {g : Option γ → γ}
    (hfg : ∀ b c, Option.Rel R b c → R (f b) (g c)) :
    Alike R (Table.change t key f) (Table.change t' key g) := by
  rw [Table.change, Table.change, Std.TreeMap.getKeyD_eq_getD_getKey?,
    Std.TreeMap.getKeyD_eq_getD_getKey?, h.keys]
  exact h.insert _ (hfg _ _ (h.values key))

theorem erase (h : Alike R t t') (key : α) : Alike R (t.erase key) (t'.erase key) where
  keys k := by rw [Std.TreeMap.getKey?_erase, Std.TreeMap.getKey?_erase, h.keys]
  values k := by
    rw [Std.TreeMap.getElem?_erase, Std.TreeMap.getElem?_erase]
    split
    · exact .none
    · exact h.values k

/-- The keys stand in the same order. -/
theorem map_fst_toList (h : Alike R t t') : t.toList.map (·.1) = t'.toList.map (·.1) := by
  have same : (t.map fun _ _ => ()).Equiv (t'.map fun _ _ => ()) :=
    .of_forall_getKey?_unit_eq fun k => by
      rw [Std.TreeMap.getKey?_map, Std.TreeMap.getKey?_map, h.keys]
  have keys := same.keys_eq
  rw [Std.TreeMap.keys_map, Std.TreeMap.keys_map] at keys
  exact Std.TreeMap.map_fst_toList_eq_keys.trans
    (keys.trans Std.TreeMap.map_fst_toList_eq_keys.symm)

theorem toList (h : Alike R t t') :
    List.Forall₂ (fun a b => a.1 = b.1 ∧ R a.2 b.2) t.toList t'.toList := by
  have in_step := map_eq_map_iff.1 h.map_fst_toList
  obtain ⟨length, keys⟩ := List.forall₂_iff_zip.1 in_step
  refine List.forall₂_iff_zip.2 ⟨length, fun {a b} hmem => ⟨keys hmem, ?_⟩⟩
  obtain ⟨ha, hb⟩ := List.of_mem_zip hmem
  have value := h.values a.1
  have left := (Std.TreeMap.mem_toList_iff_getKey?_eq_some_and_getElem?_eq_some.1 ha).2
  have right := (Std.TreeMap.mem_toList_iff_getKey?_eq_some_and_getElem?_eq_some.1 hb).2
  rw [left, keys hmem, right] at value
  cases value with
  | some hvalue => exact hvalue

end Table.Alike

end MatchAlgebra
