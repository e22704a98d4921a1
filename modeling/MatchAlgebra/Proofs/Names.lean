import MatchAlgebra.Proofs.Introductions

/-!
# Names of variables

A variable is named by a base, an underscore and its number among the variables of its factory.  The
base may be anything, and may itself end in an underscore and digits; but the number has no
underscore, so the last one splits the name again:

    nameParts "a_1_12"  =  ("a_1", 12)                                     (nameParts_name)

So the names of one factory are different, whatever their bases.  Variables of different factories
may have one name, but are told apart by the scopes of their factories (`names_apart`).
-/

namespace MatchAlgebra

/-! ## Reading a name -/

/-- The base and the number of a name, before and after its last underscore. -/
def nameParts (name : String) : String × Nat :=
  let backwards := name.toList.reverse
  let digits := (backwards.takeWhile (· != '_')).reverse
  let base := ((backwards.dropWhile (· != '_')).drop 1).reverse
  (String.ofList base, Nat.ofDigitChars 10 digits 0)

/-- Digits are no underscores. -/
theorem ne_underscore_of_mem_toDigits {n : Nat} {c : Char} (h : c ∈ Nat.toDigits 10 n) :
    (c != '_') = true := by
  have digit := Nat.isDigit_of_mem_toDigits (by decide) (by decide) h
  refine bne_iff_ne.2 fun heq => ?_
  rw [heq] at digit
  exact absurd digit (by decide)

theorem nameParts_name (base : String) (n : Nat) : nameParts s!"{base}_{n}" = (base, n) := by
  have digits : ∀ c ∈ (Nat.toDigits 10 n).reverse, (c != '_') = true :=
    fun c hc => ne_underscore_of_mem_toDigits (List.mem_reverse.1 hc)
  have backwards : (s!"{base}_{n}" : String).toList.reverse =
      (Nat.toDigits 10 n).reverse ++ '_' :: base.toList.reverse := by
    show (base ++ "_" ++ Nat.repr n).toList.reverse = _
    rw [String.toList_append, String.toList_append, Nat.toList_repr, List.reverse_append,
      List.reverse_append]
    rfl
  rw [nameParts, backwards, List.takeWhile_append_of_pos digits,
    List.dropWhile_append_of_pos digits, List.takeWhile_cons_of_neg (by decide),
    List.dropWhile_cons_of_neg (by decide), List.append_nil, List.reverse_reverse, List.drop_one,
    List.tail_cons, List.reverse_reverse, Nat.ofDigitChars_toDigits (by decide) (by decide),
    String.ofList_toList]

/-! ## Names apart -/

/-- No two of the creations are the same variable or, in one factory, have the same name; and each
name tells its base and its number.  No number is above how many creations there are. -/
structure Creations.Apart (fs : List Factory) (cs : List Creation) : Prop where
  factories : fs.Nodup
  distinct : cs.Pairwise fun c d => (c.made == d.made) = false
  names : cs.Pairwise fun c d => c.factory = d.factory → c.made.name ≠ d.made.name
  readable : ∀ later c earlier, cs = later ++ c :: earlier →
    nameParts c.made.name = (c.base, c.number earlier)
  bounded : ∀ c ∈ cs, c.made.id.index ≤ cs.length

/-- What a call has created: variables for its bases if it succeeds, and none if it fails. -/
def Call.Creates {n : Nat} (c : Call n) (es : Fin n → Expression)
    (made : List (String × Variable)) : Except PlanError Expression → Prop
  | .ok e => e.Introduces (c.known es) c.bases made
  | .error _ => made = []

namespace Creations

variable {s s' : Supply} {fs : List Factory} {cs : List Creation}

/-- An earlier creation of the same factory has a smaller number. -/
theorem number_lt {c d : Creation} {middle earlier : List Creation} (same : c.factory = d.factory) :
    d.number earlier < c.number (middle ++ d :: earlier) := by
  rw [Creation.number, Creation.number, List.countP_append, List.countP_cons,
    if_pos (decide_eq_true same.symm), same]
  omega

theorem pairwise_of_splits {P : Creation → Creation → Prop}
    (h : ∀ later c middle d earlier, cs = later ++ c :: (middle ++ d :: earlier) → P c d) :
    cs.Pairwise P := by
  induction cs with
  | nil => exact .nil
  | cons c cs ih =>
    refine List.pairwise_cons.2 ⟨fun d hd => ?_, ih fun later c' middle d earlier split => ?_⟩
    · obtain ⟨middle, earlier, rfl⟩ := List.append_of_mem hd
      exact h [] c middle d earlier rfl
    · exact h (c :: later) c' middle d earlier (congrArg (c :: ·) split)

theorem apart (h : Creations s fs cs) : Apart fs cs := by
  have numbered := h.sound.numbered
  have readable : ∀ later c earlier, cs = later ++ c :: earlier →
      nameParts c.made.name = (c.base, c.number earlier) := by
    intro later c earlier split
    rw [(numbered later c earlier split).name]
    exact nameParts_name c.base (c.number earlier)
  have split_again : ∀ {later c middle d earlier},
      cs = later ++ c :: (middle ++ d :: earlier) → cs = (later ++ c :: middle) ++ d :: earlier :=
    fun split => split.trans (List.append_assoc _ (_ :: _) _).symm
  refine ⟨h.sound.different, pairwise_of_splits ?_, pairwise_of_splits ?_, readable, ?_⟩
  · intro later c middle d earlier split
    refine decide_eq_false fun same => ?_
    rw [(numbered _ _ _ split).id, (numbered _ _ _ (split_again split)).id] at same
    obtain ⟨scope, number⟩ := VariableId.mk.inj same
    exact Nat.ne_of_gt (number_lt (congrArg Factory.mk scope)) number
  · intro later c middle d earlier split factory same
    have parts := congrArg nameParts same
    rw [readable _ _ _ split, readable _ _ _ (split_again split)] at parts
    exact Nat.ne_of_gt (number_lt factory) (Prod.mk.inj parts).2
  · intro c hc
    obtain ⟨later, earlier, split⟩ := List.append_of_mem hc
    have below : earlier.countP (·.factory = c.factory) ≤ earlier.length := List.countP_le_length
    rw [(numbered _ _ _ split).id, split, List.length_append, List.length_cons]
    show Creation.number c earlier ≤ _
    rw [Creation.number]
    omega

/-- **Names tell variables apart.**  Whatever factories have been made and whatever bases they have
been given, no two creations are the same variable, and no two of one factory have the same name.
So it is when calls of the algebra have been made, one by one or by a program: a call creates
variables for its bases, and a program builds its plan of what its calls have created. -/
theorem names_apart (h : Creations s fs cs) : Apart fs cs ∧
    (∀ {n : Nat} (c : Call n) (es : Fin n → Expression), ∀ f ∈ fs, ∀ result s',
      (c.build f es).run.run s = (result, s') →
        ∃ made, Creations s' fs (f.creations made ++ cs) ∧
          Apart fs (f.creations made ++ cs) ∧ c.Creates es made result) ∧
    ∀ {n : Nat} (p : Program n) (es : Fin n → Expression), ∀ f ∈ fs, ∀ result s',
      (p.build f es).run.run s = (result, s') →
        ∃ made, Creations s' fs (f.creations made ++ cs) ∧
          Apart fs (f.creations made ++ cs) ∧
          ∀ plan, result = .ok plan → plan.mentioned ⊆ made.map (·.2) ++ Program.known es := by
  refine ⟨h.apart, fun c es f known result s' runs => ?_, fun p es f known result s' runs => ?_⟩
  · cases result with
    | ok e =>
      obtain ⟨made, adds, introduces⟩ := Call.adds_build runs
      have later := adds fs cs known h
      exact ⟨made, later, later.apart, introduces⟩
    | error error =>
      obtain ⟨-, rfl⟩ := Call.run_eq_error_iff.1 runs
      exact ⟨[], h, h.apart, rfl⟩
  · obtain ⟨made, adds, mentioned⟩ := p.adds_run runs
    have later := adds fs cs known h
    exact ⟨made, later, later.apart, mentioned⟩

/-- Bases that look like names: `a_1` gives `a_1_1`, the empty one `_2`, and `a` gives `a_3` after
them but `a_1` in another factory. -/
def lookAlikes : List Creation :=
  [⟨⟨2⟩, "a", ⟨⟨2, 1⟩, "a_1", .value⟩⟩, ⟨⟨1⟩, "a", ⟨⟨1, 3⟩, "a_3", .value⟩⟩,
    ⟨⟨1⟩, "", ⟨⟨1, 2⟩, "_2", .value⟩⟩, ⟨⟨1⟩, "a_1", ⟨⟨1, 1⟩, "a_1_1", .value⟩⟩]

theorem names_apart_lookAlikes : ∃ s, Creations s [⟨2⟩, ⟨1⟩] lookAlikes ∧
    Apart [⟨2⟩, ⟨1⟩] lookAlikes ∧ ∃ made,
      Apart [⟨2⟩, ⟨1⟩] ((⟨1⟩ : Factory).creations made ++ lookAlikes) ∧
        made.map (·.1) = [FactType.baseName ⟨"A_1"⟩] := by
  have start : Creations {} [] [] := .start fun _ _ => rfl
  have factories : Creations _ [⟨2⟩, ⟨1⟩] [] := (start.factory rfl).factory rfl
  have one : ⟨1⟩ ∈ [(⟨2⟩ : Factory), ⟨1⟩] := by decide
  have two : ⟨2⟩ ∈ [(⟨2⟩ : Factory), ⟨1⟩] := by decide
  have trace : Creations _ [⟨2⟩, ⟨1⟩] lookAlikes :=
    (((factories.create one rfl).create one rfl).create one rfl).create two rfl
  obtain ⟨apart, calls, -⟩ := names_apart trace
  obtain ⟨e, s', makes⟩ := Expression.succeeds_forEach ⟨1⟩ ⟨"A_1"⟩ _
  obtain ⟨made, -, apart', creates⟩ :=
    calls (.forEach ⟨"A_1"⟩) Fin.elim0 ⟨1⟩ one (.ok e) s' makes
  exact ⟨_, trace, apart, made, apart', creates.bases⟩

end Creations

end MatchAlgebra
