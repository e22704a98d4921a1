import Mathlib.Algebra.BigOperators.Group.List.Basic
import Mathlib.Algebra.Ring.Int.Defs
import MatchAlgebra.Aggregate.Measure
import MatchAlgebra.Proofs.Bag

/-!
# What a measure measures

`over` reads the value of a measure off a whole list of values, without any state.  The states of
the measures are tied to it by one relation, `Holds`: a state holds values under their numbers if it
is what these values leave behind, whatever came and went before.

    m.Holds s n vs  →  m.Holds (m.add s v) (n + 1) ((n, v) :: vs)             (Holds.add)
    m.Holds s n ((k, v) :: vs)  →  m.Holds (m.remove s k v) n vs              (Holds.remove)
    m.Holds s n vs  →  (m.result s).sense = (m.over (vs.map (·.2))).sense     (Holds.result)

The built-in measures do not look at the numbers, and their states also hold every rearrangement of
the values, in every spelling (`Holds.of_senses`), so that the order in which values are added and
removed does not show.  Of a measure of another make this is asked (`Lawful`), and only its result
depends on it.
-/

namespace MatchAlgebra

/-! ## Values at once -/

/-- The exact sum of the integers among values. -/
def integerSum (vs : List Value) : Int := ((vs.filterMap Value.asInt?).map (·.toInt)).sum

def nonIntegers (vs : List Value) : List Value := vs.filter (·.asInt?.isNone)

/-- The mean: integers are summed exactly, and after them the other values in ascending order, each
value times its count. -/
def meanOver (vs : List Value) : Value :=
  if vs.isEmpty then .null
  else
    let others := nonIntegers vs
    let sum := (Value.sort (Value.distinct others)).foldl
      (fun total v => total.add (v.toBinary64.mul (Binary64.ofInt (others.count v))))
      (Binary64.ofInt 0)
    .float (((Binary64.ofInt (integerSum vs)).add sum).div (Binary64.ofInt vs.length))

/-- The value of a measure over values. -/
def Measure.over (m : Measure) (vs : List Value) : Value :=
  match m with
  | .count => .int (Int64.ofInt vs.length)
  | .countDistinct => .int (Int64.ofInt (Value.distinct vs).length)
  | .sum => .int (Int64.ofInt (vs.map (·.toInt64.toInt)).sum)
  | .min => (Value.sort vs).head?.getD .null
  | .max => (Value.sort vs).getLast?.getD .null
  | .average => meanOver vs
  | .toSortedList => .tuple (Value.sort vs)
  | .other _ answer => answer (vs.map .add)

/-! ## Lists of the same senses -/

section
variable {vs ws : List Value} (hp : (vs.map Value.sense).Perm (ws.map Value.sense))
include hp

theorem perm_map_of_senses {β : Type} {f : Value → β} (hf : ∀ v w : Value, v == w → f v = f w) :
    (vs.map f).Perm (ws.map f) := by
  obtain ⟨g, hg⟩ := Sense.exists_of_congr hf
  have := hp.map g
  rwa [List.map_map, List.map_map, Function.comp_def, funext hg] at this

theorem perm_senses_filter {p : Value → Bool} (h : ∀ v w : Value, v == w → p v = p w) :
    ((vs.filter p).map Value.sense).Perm ((ws.filter p).map Value.sense) := by
  obtain ⟨q, hq⟩ := Sense.exists_of_congr h
  have := hp.filter q
  rwa [List.filter_map, List.filter_map, Function.comp_def, funext hq] at this

theorem length_eq_of_senses : vs.length = ws.length := by simpa using hp.length_eq

end

/-- Values that agree with others up to order and spelling can be put in the order of these. -/
theorem Value.exists_perm_of_senses {vs ws : List Value}
    (h : (ws.map sense).Perm (vs.map sense)) :
    ∃ seen, seen.Perm ws ∧ List.Forall₂ (fun v w => v == w) vs seen := by
  have same : List.Forall₂ (fun t w => t = w.sense) (ws.map sense) ws :=
    List.forall₂_map_left_iff.2 (List.forall₂_same.2 fun _ _ => rfl)
  obtain ⟨seen, related, perm⟩ := List.perm_comp_forall₂ h.symm same
  exact ⟨seen, perm, (List.forall₂_map_left_iff.1 related).imp fun _ _ => sense_inj.1⟩

theorem Value.asInt?_congr (v w : Value) (h : v == w) : v.asInt? = w.asInt? := by
  cases v <;> cases w <;> try cases h <;> done
  case int.int a b => rw [eq_of_beq (show a == b from h)]
  all_goals rfl

theorem Value.toInt64_congr (v w : Value) (h : v == w) : v.toInt64 = w.toInt64 := by
  cases v <;> cases w <;> try cases h <;> done
  case bool.bool a b => rw [eq_of_beq (show a == b from h)]
  case int.int a b => rw [eq_of_beq (show a == b from h)]
  case float.float a b => rw [of_decide_eq_true (show decide (a = b) from h)]
  all_goals rfl

theorem integerSum_eq_of_senses {vs ws : List Value}
    (hp : (vs.map Value.sense).Perm (ws.map Value.sense)) : integerSum vs = integerSum ws := by
  have := (perm_map_of_senses hp Value.asInt?_congr).filterMap id
  rw [List.filterMap_map, List.filterMap_map] at this
  exact (this.map _).sum_eq

theorem integerSum_int (n : Int64) (vs : List Value) :
    integerSum (.int n :: vs) = n.toInt + integerSum vs := by
  simp [integerSum, Value.asInt?]

/-! ## States -/

namespace Mean

structure Holds (mean : Mean) (vs : List Value) : Prop where
  integers : mean.integers = integerSum vs
  others : mean.others.Holds (nonIntegers vs)
  live : mean.live = vs.length

end Mean

namespace Measure

/-- Values under the numbers that they were added with. -/
abbrev Numbered := List (Nat × Value)

/-- What is left of the values after the events, the latest first.  So many were added in all, each
under a number of its own, and only a value that is there is removed. -/
inductive Event.Leave : List Event → Nat → Numbered → Prop
  | start : Leave [] 0 []
  | add {events : List Event} {next : Nat} {vs : Numbered} (h : Leave events next vs) (v : Value) :
      Leave (.add v :: events) (next + 1) ((next, v) :: vs)
  | remove {events : List Event} {next : Nat} {vs : Numbered} {number : Nat} {v : Value}
      (h : Leave events next vs) (there : (number, v) ∈ vs) :
      Leave (.remove number :: events) next (vs.filter (·.1 ≠ number))

/-- Every answer is that to the values that are left, added in any order and in any spelling.  The
built-in measures have no say in it: they are lawful. -/
def Lawful : Measure → Prop
  | .other _ answer => ∀ events next vs, Event.Leave events next vs → ∀ others : List Value,
      ((vs.map (·.2)).map Value.sense).Perm (others.map Value.sense) →
      (answer events).sense = (answer (others.map .add)).sense
  | _ => True

/-- The state is what the values leave behind, of so many that were added. -/
def Holds : (m : Measure) → m.State → Nat → Numbered → Prop
  | .count, (n : Int), _, vs => n = vs.length
  | .countDistinct, bag, _, vs => Bag.Holds bag (vs.map (·.2))
  | .sum, (total : Int64), _, vs => total = Int64.ofInt (vs.map (·.2.toInt64.toInt)).sum
  | .min, bag, _, vs => Bag.Holds bag (vs.map (·.2))
  | .max, bag, _, vs => Bag.Holds bag (vs.map (·.2))
  | .average, mean, _, vs => Mean.Holds mean (vs.map (·.2))
  | .toSortedList, bag, _, vs => Bag.Holds bag (vs.map (·.2))
  | .other _ _, events, next, vs => ∃ left, Event.Leave events next left ∧ left.Perm vs

end Measure

namespace Mean.Holds

variable {mean : Mean} {v : Value} {vs ws : List Value}

theorem of_perm (h : mean.Holds vs) (hp : (vs.map Value.sense).Perm (ws.map Value.sense)) :
    mean.Holds ws where
  integers := h.integers.trans (integerSum_eq_of_senses hp)
  others := h.others.of_perm
    (perm_senses_filter hp fun v w hvw => by rw [Value.asInt?_congr v w hvw])
  live := by rw [h.live, length_eq_of_senses hp]

theorem add (h : mean.Holds vs) : (mean.add v).Holds (v :: vs) := by
  obtain ⟨hi, ho, hl⟩ := h
  cases v with
  | int n =>
    refine ⟨?_, ho, by simp [Mean.add, hl]⟩
    simp [Mean.add, hi, integerSum_int, Int.add_comm]
  | _ => exact ⟨hi, ho.insert, by simp [Mean.add, hl]⟩

theorem remove (h : mean.Holds (v :: vs)) : (mean.remove v).Holds vs := by
  obtain ⟨hi, ho, hl⟩ := h
  cases v with
  | int n =>
    refine ⟨?_, ho, by simp [Mean.remove, hl]⟩
    simp [Mean.remove, hi, integerSum_int]
  | _ => exact ⟨hi, ho.erase, by simp [Mean.remove, hl]⟩

theorem result (h : mean.Holds vs) : mean.result = meanOver vs := by
  unfold Mean.result meanOver
  rw [h.integers, h.others.sum_eq, h.live]
  simp only [Int.natCast_eq_zero, List.isEmpty_iff, List.length_eq_zero_iff]

end Mean.Holds

theorem senses_getD {v? w? : Option Value} {default : Value}
    (h : v?.map Value.sense = w?.map Value.sense) :
    (v?.getD default).sense = (w?.getD default).sense := by
  cases v? <;> cases w? <;> simp_all

namespace Measure

namespace Event.Leave

variable {events : List Event} {next : Nat} {vs : Numbered}

theorem lt_next (h : Leave events next vs) : ∀ entry ∈ vs, entry.1 < next := by
  induction h with
  | start => exact fun _ hentry => absurd hentry List.not_mem_nil
  | add _ v ih =>
    exact List.forall_mem_cons.2
      ⟨Nat.lt_succ_self _, fun entry hentry => Nat.lt_succ_of_lt (ih entry hentry)⟩
  | remove _ _ ih => exact fun entry hentry => ih entry (List.mem_of_mem_filter hentry)

theorem nodup (h : Leave events next vs) : (vs.map (·.1)).Nodup := by
  induction h with
  | start => exact List.nodup_nil
  | @add events next vs h v ih =>
    refine List.nodup_cons.2 ⟨fun hmem => ?_, ih⟩
    obtain ⟨entry, hentry, heq⟩ := List.mem_map.1 hmem
    exact absurd (h.lt_next entry hentry) (heq ▸ Nat.lt_irrefl next)
  | remove _ _ ih => exact (List.filter_sublist.map _).nodup ih

end Event.Leave

/-- Whether a measure is built in. -/
def BuiltIn : Measure → Prop
  | .other _ _ => False
  | _ => True

namespace Holds

variable {m : Measure} {s : m.State} {next number : Nat} {v : Value} {vs ws : Numbered}

theorem start : m.Holds m.start 0 [] := by
  cases m with
  | count | sum => rfl
  | countDistinct | min | max | toSortedList => exact Bag.holds_empty
  | average => exact ⟨rfl, Bag.holds_empty, rfl⟩
  | other => exact ⟨[], .start, .nil⟩

/-- A built-in measure does not tell values apart that are equal, nor their order and numbers. -/
theorem of_senses (h : m.Holds s next vs) (builtIn : m.BuiltIn) (added : Nat)
    (hp : ((vs.map (·.2)).map Value.sense).Perm ((ws.map (·.2)).map Value.sense)) :
    m.Holds s added ws := by
  cases m with
  | count => exact Eq.trans h (by simpa using congrArg Int.ofNat (length_eq_of_senses hp))
  | sum =>
    have := perm_map_of_senses hp (f := fun v => v.toInt64.toInt) fun v w hvw => by
      rw [Value.toInt64_congr v w hvw]
    rw [List.map_map, List.map_map] at this
    exact Eq.trans h (congrArg Int64.ofInt this.sum_eq)
  | countDistinct | min | max | toSortedList => exact Bag.Holds.of_perm h hp
  | average => exact Mean.Holds.of_perm h hp
  | other => exact builtIn.elim

theorem of_perm (h : m.Holds s next vs) (hp : vs.Perm ws) : m.Holds s next ws := by
  cases m with
  | other =>
    obtain ⟨left, leave, perm⟩ := h
    exact ⟨left, leave, perm.trans hp⟩
  | _ => exact h.of_senses trivial next ((hp.map _).map _)

theorem add (h : m.Holds s next vs) : m.Holds (m.add s v) (next + 1) ((next, v) :: vs) := by
  cases m with
  | count =>
    show s + 1 = (((next, v) :: vs).length : Int)
    rw [show s = (vs.length : Int) from h]
    simp
  | sum =>
    show s + v.toInt64 = _
    rw [show s = Int64.ofInt _ from h, List.map_cons, List.sum_cons, Int64.ofInt_add,
      Int64.ofInt_toInt, Int64.add_comm]
  | countDistinct | min | max | toSortedList => exact Bag.Holds.insert h
  | average => exact Mean.Holds.add h
  | other =>
    obtain ⟨left, leave, perm⟩ := h
    exact ⟨_, leave.add v, perm.cons _⟩

theorem remove (h : m.Holds s next ((number, v) :: vs)) :
    m.Holds (m.remove s number v) next vs := by
  cases m with
  | count =>
    show s - 1 = (vs.length : Int)
    rw [show s = (((number, v) :: vs).length : Int) from h]
    simp
  | sum =>
    show s - v.toInt64 = _
    rw [show s = Int64.ofInt _ from h, List.map_cons, List.sum_cons, Int64.ofInt_add,
      Int64.ofInt_toInt, Int64.add_comm, Int64.add_sub_cancel]
  | countDistinct | min | max | toSortedList => exact Bag.Holds.erase h
  | average => exact Mean.Holds.remove h
  | other =>
    obtain ⟨left, leave, perm⟩ := h
    refine ⟨_, leave.remove (perm.mem_iff.2 List.mem_cons_self), ?_⟩
    have others : vs.filter (·.1 ≠ number) = vs := by
      have nodup := (perm.map _).nodup_iff.1 leave.nodup
      refine List.filter_eq_self.2 fun entry hentry => decide_eq_true fun heq => ?_
      exact (List.nodup_cons.1 nodup).1 (List.mem_map.2 ⟨entry, hentry, heq⟩)
    have rest := perm.filter (·.1 ≠ number)
    rwa [List.filter_cons_of_neg (by simp), others] at rest

/-- A state answers for the values that it holds, up to spelling. -/
theorem result (h : m.Holds s next vs) (lawful : m.Lawful) :
    (m.result s).sense = (m.over (vs.map (·.2))).sense := by
  cases m with
  | count => rw [Measure.result, Measure.over, show s = (vs.length : Int) from h, List.length_map]
  | sum =>
    rw [Measure.result, Measure.over, show s = Int64.ofInt _ from h, List.map_map]
    rfl
  | countDistinct => rw [Measure.result, Measure.over, Bag.Holds.distinct_eq h]
  | min => exact senses_getD (Bag.Holds.least?_eq h)
  | max => exact senses_getD (Bag.Holds.greatest?_eq h)
  | average => rw [Measure.result, Measure.over, Mean.Holds.result h]
  | toSortedList => exact Value.sense_tuple (Bag.Holds.toList_eq h)
  | other =>
    obtain ⟨left, leave, perm⟩ := h
    exact lawful _ _ _ leave _ ((perm.map _).map _)

end Holds

theorem exists_holds (m : Measure) (vs : List Value) :
    ∃ s numbered, m.Holds s vs.length numbered ∧ numbered.map (·.2) = vs := by
  induction vs with
  | nil => exact ⟨m.start, [], Holds.start, rfl⟩
  | cons v vs ih =>
    obtain ⟨s, numbered, h, rfl⟩ := ih
    exact ⟨m.add s v, _, h.add, rfl⟩

/-- A lawful measure is over the senses of the values, in any order. -/
theorem over_congr {m : Measure} (lawful : m.Lawful) {vs ws : List Value}
    (hp : (vs.map Value.sense).Perm (ws.map Value.sense)) :
    (m.over vs).sense = (m.over ws).sense := by
  obtain ⟨s, numbered, h, rfl⟩ := m.exists_holds vs
  obtain ⟨-, others, -, rfl⟩ := m.exists_holds ws
  rw [← h.result lawful]
  cases m with
  | other =>
    obtain ⟨left, leave, perm⟩ := h
    exact lawful _ _ _ leave _ (((perm.map _).map _).trans hp)
  | _ => exact (h.of_senses trivial 0 hp).result trivial

end Measure

/-! ## Counters -/

def Bag.multiplicities (bag : Bag) : List Nat := bag.counts.toList.map (·.2)

namespace Measure

/-- How many values a state says there are; only two measures count them. -/
def total? : (m : Measure) → m.State → Option Int
  | .count, (n : Int) => some n
  | .average, mean => some (Mean.live mean)
  | _, _ => none

/-- How often each of the values in a state occurs. -/
def multiplicities : (m : Measure) → m.State → List Nat
  | .count, _ => []
  | .other _ _, _ => []
  | .countDistinct, bag => Bag.multiplicities bag
  | .sum, _ => []
  | .min, bag => Bag.multiplicities bag
  | .max, bag => Bag.multiplicities bag
  | .average, mean => Bag.multiplicities (Mean.others mean)
  | .toSortedList, bag => Bag.multiplicities bag

/-- The exact sum that an average keeps; the other measures keep none. -/
def exactSum : (m : Measure) → m.State → Int
  | .average, mean => Mean.integers mean
  | _, _ => 0

end Measure

theorem Bag.Holds.multiplicities {bag : Bag} {vs : List Value} (h : bag.Holds vs) :
    ∀ n ∈ bag.multiplicities, 0 < n ∧ n ≤ vs.length := by
  have : bag.multiplicities = (Table.entries bag.counts id).map (·.2) := by
    simp [Bag.multiplicities, Table.entries]
  rw [this, h.entries]
  intro n hn
  simp only [List.map_map, List.mem_map, Function.comp_def] at hn
  obtain ⟨v, hv, rfl⟩ := hn
  refine ⟨?_, List.count_le_length⟩
  rw [← Value.count_senses, List.count_pos_iff, ← Value.mem_senses_sort_distinct]
  exact List.mem_map_of_mem hv

theorem natAbs_integerSum_le (vs : List Value) : (integerSum vs).natAbs ≤ vs.length * 2 ^ 63 := by
  induction vs with
  | nil => rfl
  | cons v vs ih =>
    cases v with
    | int n =>
      have h₁ := n.le_toInt
      have h₂ := n.toInt_lt
      rw [integerSum_int, List.length_cons, Nat.succ_mul]
      omega
    | _ => exact Nat.le_trans ih (Nat.mul_le_mul_right _ (Nat.le_succ _))

namespace Measure.Holds

variable {m : Measure} {s : m.State} {next : Nat} {vs : Numbered}

theorem total? (h : m.Holds s next vs) : ∀ n ∈ m.total? s, n = vs.length := by
  intro n hn
  cases m with
  | count =>
    rw [← Option.some.inj hn]
    exact h
  | average =>
    rw [← Option.some.inj hn, ← List.length_map (f := (·.2))]
    exact Mean.Holds.live h
  | _ => cases hn

/-- A value that does not occur has no counter, so none is ever taken below zero. -/
theorem multiplicities (h : m.Holds s next vs) :
    ∀ n ∈ m.multiplicities s, 0 < n ∧ n ≤ vs.length := by
  rw [← List.length_map (f := (·.2))]
  cases m with
  | count | sum | other => exact fun n hn => absurd hn List.not_mem_nil
  | countDistinct | min | max | toSortedList => exact Bag.Holds.multiplicities h
  | average =>
    intro n hn
    obtain ⟨pos, le⟩ := Bag.Holds.multiplicities (Mean.Holds.others h) n hn
    exact ⟨pos, le.trans (List.length_filter_le ..)⟩

/-- As long as the values can be counted in 64 bits, their exact sum fits into 128. -/
theorem exactSum_bounds (h : m.Holds s next vs) (hlen : vs.length < 2 ^ 64) :
    -2 ^ 127 ≤ m.exactSum s ∧ m.exactSum s < 2 ^ 127 := by
  cases m with
  | average =>
    show -2 ^ 127 ≤ Mean.integers s ∧ Mean.integers s < 2 ^ 127
    have := natAbs_integerSum_le (vs.map (·.2))
    rw [List.length_map] at this
    rw [Mean.Holds.integers h]
    omega
  | _ => exact ⟨by simp [Measure.exactSum], by simp [Measure.exactSum]⟩

end Measure.Holds

end MatchAlgebra
