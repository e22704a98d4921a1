import MatchAlgebra.Proofs.Mentions

/-!
# Variables that factories create

The creations of a run are followed factory by factory, whoever asks for them and whatever else goes
on meanwhile.  Each is numbered by how many its factory has made before:

    Creations s fs (later ++ c :: earlier)  →  c.made.id = ⟨c.factory.scope, c.number earlier⟩
                                                                                        (sound)

A build adds to them by the `create` calls in it and by nothing else; the rest of it is `Quiet`.
-/

namespace MatchAlgebra

/-! ## Creations -/

/-- A variable that a factory has made, and the base that it was given for it. -/
structure Creation where
  factory : Factory
  base : String
  made : Variable

/-- The factories that have been made when a supply is reached, and what they have created, both the
latest first.  Other things may go on meanwhile, with other factories too. -/
inductive Creations : Supply → List Factory → List Creation → Prop
  | start {s : Supply} (unused : s.Unused) : Creations s [] []
  | factory {s s' : Supply} {fs : List Factory} {cs : List Creation} {f : Factory}
      (h : Creations s fs cs) (makes : newFactory.Yields s f s') : Creations s' (f :: fs) cs
  | create {s s' : Supply} {fs : List Factory} {cs : List Creation} {f : Factory} {base : String}
      {type : VariableType} {v : Variable} (h : Creations s fs cs) (known : f ∈ fs)
      (makes : (f.create base type).Yields s v s') : Creations s' fs (⟨f, base, v⟩ :: cs)
  | meanwhile {s s' : Supply} {fs : List Factory} {cs : List Creation} (h : Creations s fs cs)
      (scopes : s.nextScope ≤ s'.nextScope)
      (counts : ∀ f ∈ fs, s'.created f.scope = s.created f.scope) (unused : s'.Unused) :
      Creations s' fs cs

/-- The number of a creation after earlier ones: it counts those of its factory. -/
def Creation.number (c : Creation) (earlier : List Creation) : Nat :=
  earlier.countP (·.factory = c.factory) + 1

/-- The creation has been given its variable with this number. -/
structure Creation.Numbered (c : Creation) (fs : List Factory) (n : Nat) : Prop where
  known : c.factory ∈ fs
  id : c.made.id = ⟨c.factory.scope, n⟩
  name : c.made.name = s!"{c.base}_{n}"

namespace Creations

variable {s s' : Supply} {fs : List Factory} {cs : List Creation}

/-- What holds of the supply that is reached. -/
structure Sound (s : Supply) (fs : List Factory) (cs : List Creation) : Prop where
  different : fs.Nodup
  known : ∀ f ∈ fs, f.scope < s.nextScope
  unused : s.Unused
  counts : ∀ f ∈ fs, s.created f.scope = cs.countP (·.factory = f)
  numbered : ∀ later c earlier, cs = later ++ c :: earlier → c.Numbered fs (c.number earlier)

namespace Sound

theorem start (unused : s.Unused) : Sound s [] [] where
  different := List.nodup_nil
  known _ hf := absurd hf List.not_mem_nil
  unused := unused
  counts _ hf := absurd hf List.not_mem_nil
  numbered _ c earlier split :=
    absurd split.symm (List.append_ne_nil_of_right_ne_nil _ (List.cons_ne_nil c earlier))

/-- Nothing has been created by a factory that is still to be made. -/
theorem countP_unknown (h : Sound s fs cs) {f : Factory} (unknown : f ∉ fs) :
    cs.countP (·.factory = f) = 0 := by
  refine List.countP_eq_zero.2 fun c hc heq => unknown ?_
  obtain ⟨later, earlier, split⟩ := List.append_of_mem hc
  rw [← of_decide_eq_true heq]
  exact (h.numbered later c earlier split).known

theorem factory (h : Sound s fs cs) {f : Factory} (makes : newFactory.Yields s f s') :
    Sound s' (f :: fs) cs := by
  obtain ⟨rfl, rfl⟩ := Prod.mk.inj (Build.modifyGet_yields.1 makes)
  have unknown : ⟨s.nextScope⟩ ∉ fs := fun hmem => Nat.lt_irrefl _ (h.known _ hmem)
  refine ⟨List.nodup_cons.2 ⟨unknown, h.different⟩, List.forall_mem_cons.2 ⟨Nat.lt_succ_self _, ?_⟩,
    fun scope above => h.unused scope (Nat.le_of_succ_le above),
    List.forall_mem_cons.2 ⟨?_, h.counts⟩, fun later c earlier split => ?_⟩
  · exact fun f hf => Nat.lt_succ_of_lt (h.known f hf)
  · exact (h.unused _ (Nat.le_refl _)).trans (h.countP_unknown unknown).symm
  · obtain ⟨known, id, name⟩ := h.numbered later c earlier split
    exact ⟨List.mem_cons_of_mem _ known, id, name⟩

theorem create (h : Sound s fs cs) {f : Factory} {base : String} {type : VariableType}
    {v : Variable} (known : f ∈ fs) (makes : (f.create base type).Yields s v s') :
    Sound s' fs (⟨f, base, v⟩ :: cs) := by
  obtain ⟨hv, hs⟩ := Prod.mk.inj (Build.modifyGet_yields.1 makes)
  have scopes : s'.nextScope = s.nextScope := by rw [← hs]
  have created : ∀ scope, s'.created scope =
      if scope = f.scope then s.created f.scope + 1 else s.created scope := by
    intro scope
    rw [← hs]
  refine ⟨h.different, fun g hg => scopes ▸ h.known g hg, fun scope above => ?_,
    fun g hg => ?_, fun later c earlier split => ?_⟩
  · rw [scopes] at above
    have below := h.known f known
    rw [created, if_neg (by omega), h.unused scope above]
  · rw [created, List.countP_cons]
    by_cases own : g = f
    · rw [own, if_pos rfl, h.counts f known, if_pos (decide_eq_true rfl)]
    · have other : g.scope ≠ f.scope := fun heq => own (by cases g; cases f; cases heq; rfl)
      rw [if_neg other, h.counts g hg, if_neg (by simpa using Ne.symm own), Nat.add_zero]
  · cases later with
    | nil =>
      obtain ⟨rfl, rfl⟩ := List.cons.inj split
      have number : Creation.number ⟨f, base, v⟩ cs = s.created f.scope + 1 :=
        congrArg (· + 1) (h.counts f known).symm
      rw [number]
      exact ⟨known, by rw [← hv], by rw [← hv]⟩
    | cons first later => exact h.numbered later c earlier (List.cons.inj split).2

theorem meanwhile (h : Sound s fs cs) (scopes : s.nextScope ≤ s'.nextScope)
    (counts : ∀ f ∈ fs, s'.created f.scope = s.created f.scope) (unused : s'.Unused) :
    Sound s' fs cs :=
  ⟨h.different, fun f hf => Nat.lt_of_lt_of_le (h.known f hf) scopes, unused,
    fun f hf => (counts f hf).trans (h.counts f hf), h.numbered⟩

end Sound

theorem sound (h : Creations s fs cs) : Sound s fs cs := by
  induction h with
  | start unused => exact .start unused
  | factory _ makes ih => exact ih.factory makes
  | create _ known makes ih => exact ih.create known makes
  | meanwhile _ scopes counts unused ih => exact ih.meanwhile scopes counts unused

end Creations

/-! ## What builds create -/

/-- Variables of the factory with their bases, made in this order, as creations. -/
def Factory.creations (factory : Factory) (made : List (String × Variable)) : List Creation :=
  (made.map fun (base, v) => ⟨factory, base, v⟩).reverse

/-- From one supply to the next the factory makes these variables for these bases, in this order,
whatever has been created before. -/
def Factory.Adds (factory : Factory) (s : Supply) (made : List (String × Variable))
    (s' : Supply) : Prop :=
  ∀ fs cs, factory ∈ fs → Creations s fs cs → Creations s' fs (factory.creations made ++ cs)

/-- The build draws no numbers of factories or variables. -/
def Build.Quiet {α : Type} (m : Build α) : Prop :=
  ∀ s a s', m.Yields s a s' → s'.nextScope = s.nextScope ∧ s'.created = s.created

namespace Build.Quiet

variable {α β : Type} {m : Build α} {f : α → Build β}

theorem pure (a : α) : Quiet (pure a : Build α) := by
  intro s b s' h
  obtain ⟨-, rfl⟩ := pure_yields.1 h
  exact ⟨rfl, rfl⟩

theorem bind (h : Quiet m) (hf : ∀ a, Quiet (f a)) : Quiet (m >>= f) := by
  intro s b s'' hb
  obtain ⟨a, s', ha, hb⟩ := bind_yields.1 hb
  obtain ⟨scopes, counts⟩ := h s a s' ha
  obtain ⟨scopes', counts'⟩ := hf a s' b s'' hb
  exact ⟨scopes'.trans scopes, counts'.trans counts⟩

theorem check (r : Except PlanError α) : Quiet (check r) := by
  intro s a s' h
  obtain ⟨-, rfl⟩ := check_yields.1 h
  exact ⟨rfl, rfl⟩

theorem drawId : Quiet drawId := by
  intro s a s' h
  obtain ⟨-, rfl⟩ := Prod.mk.inj (modifyGet_yields.1 h)
  exact ⟨rfl, rfl⟩

theorem newStep (step : Step) : Quiet (newStep step) := drawId.bind fun _ => pure _

theorem newGroup (grouping : Grouping) (input : List Condition) :
    Quiet (newGroup grouping input) := drawId.bind fun _ => pure _

theorem append (log : Log) (c : Condition) : Quiet (Log.append log c) := by
  intro s a s' h
  obtain ⟨-, rfl⟩ := Prod.mk.inj (modifyGet_yields.1 h)
  exact ⟨rfl, rfl⟩

theorem union (logs : List Log) : Quiet (Log.union logs) := by
  intro s a s' h
  obtain ⟨-, rfl⟩ := Prod.mk.inj (modifyGet_yields.1 h)
  exact ⟨rfl, rfl⟩

theorem appendSteps (log : Log) (steps : List Step) : Quiet (Log.appendSteps log steps) := by
  induction steps generalizing log with
  | nil => exact pure log
  | cons step steps ih => exact (newStep step).bind fun c => (append log c).bind ih

theorem componentSlots (log : Log) (pairs : List (Variable × Condition)) :
    Quiet (Expression.componentSlots log pairs) := by
  induction pairs generalizing log with
  | nil => exact pure _
  | cons pair pairs ih => exact (append log pair.2).bind fun log => (ih log).bind fun _ => pure _

end Build.Quiet

namespace Factory.Adds

variable {factory : Factory} {s s' s'' : Supply} {made more : List (String × Variable)}

theorem refl : factory.Adds s [] s := fun _ _ _ h => h

theorem trans (h : factory.Adds s made s') (h' : factory.Adds s' more s'') :
    factory.Adds s (made ++ more) s'' := by
  intro fs cs known creations
  rw [Factory.creations, List.map_append, List.reverse_append, List.append_assoc]
  exact h' fs _ known (h fs cs known creations)

theorem create {base : String} {type : VariableType} {v : Variable}
    (makes : (factory.create base type).Yields s v s') : factory.Adds s [(base, v)] s' :=
  fun _ _ known creations => creations.create known makes

theorem quiet {α : Type} {m : Build α} {a : α} (h : m.Quiet) (makes : m.Yields s a s') :
    factory.Adds s [] s' := by
  intro fs cs _ creations
  obtain ⟨scopes, counts⟩ := h s a s' makes
  refine creations.meanwhile (Nat.le_of_eq scopes.symm) (fun f _ => congrFun counts f.scope) ?_
  intro scope above
  rw [counts, creations.sound.unused scope (scopes ▸ above)]

theorem trans_quiet {α : Type} {m : Build α} {a : α} (h : factory.Adds s made s') (hm : m.Quiet)
    (makes : m.Yields s' a s'') : factory.Adds s made s'' := by
  rw [← List.append_nil made]
  exact h.trans (quiet hm makes)

/-- Making a variable for each item of a list. -/
theorem mapM {α β : Type} {f : α → Build β} {bound : β → Variable} {base : String}
    (each : ∀ {a s b s'}, (f a).Yields s b s' → factory.Adds s [(base, bound b)] s')
    {as : List α} {bs : List β} (makes : Build.Yields (as.mapM f) s bs s') :
    factory.Adds s (bs.map fun b => (base, bound b)) s' := by
  induction as generalizing s bs with
  | nil =>
    obtain ⟨rfl, rfl⟩ := Build.pure_yields.1 makes
    exact refl
  | cons a as ih =>
    obtain ⟨b, s₁, rest, rfl, hb, hrest⟩ := Build.exists_of_mapM_cons makes
    rw [List.map_cons]
    exact (each hb).trans (ih hrest)

end Factory.Adds

end MatchAlgebra
