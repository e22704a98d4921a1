/-!
# Powers and decimal digits

The two powers that number formats are made of, and the plain layouts of a natural number:
its digits, its digits followed by zeros, and its digits with a point among them.  Digits are read
back with or without a sign.
-/

namespace MatchAlgebra

/-- Two to the power `n`. -/
def twoPow (n : Nat) : Nat := Nat.pow 2 n

/-- Ten to the power `n`. -/
def tenPow (n : Nat) : Nat := Nat.pow 10 n

theorem tenPow_pos (n : Nat) : 0 < tenPow n := Nat.pow_pos (by decide)

theorem tenPow_add (m n : Nat) : tenPow (m + n) = tenPow m * tenPow n := Nat.pow_add 10 m n

namespace Digits

/-! ## Writing -/

/-- The last `2^k` digits of `n`, each half on its own. -/
def block : Nat → Nat → List Char
  | 0, n => [Nat.digitChar (n % 10)]
  | k + 1, n => block k (n / tenPow (twoPow k)) ++ block k (n % tenPow (twoPow k))

/-- The decimal digits of `n`, without leading zeros; zero has one digit.  Long numbers are written
by halves, since taking one digit at a time off them is slow. -/
def ofNat (n : Nat) : List Char :=
  if n.log2 < 64 then Nat.toDigits 10 n else (block n.log2.log2 n).dropWhile (· = '0')

/-- The digits of `n` with a point before the last `places` of them and at least one digit
before the point. -/
def withPoint (n places : Nat) : List Char :=
  let digits := ofNat n
  let padded := List.replicate (places + 1 - digits.length) '0' ++ digits
  let whole := padded.length - places
  padded.take whole ++ '.' :: padded.drop whole

/-- The digits of `n * 10^exponent`, never in scientific notation. -/
def scaled (n : Nat) (exponent : Int) : List Char :=
  if 0 ≤ exponent then ofNat n ++ List.replicate exponent.toNat '0'
  else withPoint n (-exponent).toNat

/-- A sign for negative numbers, nothing for the others. -/
def sign (negative : Bool) : List Char := if negative then ['-'] else []

/-! ## Reading -/

/-- The number that a list of digits spells; other characters are passed over. -/
def toNat (digits : List Char) : Nat :=
  digits.foldl (fun n c => if c.isDigit then 10 * n + (c.toNat - '0'.toNat) else n) 0

/-- Whether a sign makes what follows it negative, and what follows it; a sign may be missing. -/
def splitSign : List Char → Bool × List Char
  | '-' :: rest => (true, rest)
  | '+' :: rest => (false, rest)
  | rest => (false, rest)

def isNumeral (chars : List Char) : Bool := !chars.isEmpty && chars.all Char.isDigit

/-- A whole number: `+12`, `-3`, `7`. -/
def readInt? (text : List Char) : Option Int :=
  let (negative, digits) := splitSign text
  let n : Int := toNat digits
  if isNumeral digits then some (if negative then -n else n) else none

/-! ## The digits of long numbers -/

/-- The last `m` digits of `n`. -/
def lastDigits : Nat → Nat → List Char
  | 0, _ => []
  | m + 1, n => lastDigits m (n / 10) ++ [Nat.digitChar (n % 10)]

theorem lastDigits_mod (m n : Nat) : lastDigits m (n % tenPow m) = lastDigits m n := by
  induction m generalizing n with
  | zero => rfl
  | succ m ih =>
    have h : tenPow (m + 1) = 10 * tenPow m := by simp [tenPow, Nat.pow_succ, Nat.mul_comm]
    rw [lastDigits, lastDigits, h, Nat.mod_mul_right_div_self, Nat.mod_mul_right_mod, ih]

theorem lastDigits_add (a b n : Nat) :
    lastDigits (a + b) n = lastDigits a (n / tenPow b) ++ lastDigits b n := by
  induction b generalizing n with
  | zero => simp [lastDigits, tenPow]
  | succ b ih =>
    have h : n / tenPow (b + 1) = n / 10 / tenPow b := by
      simp [tenPow, Nat.pow_succ, Nat.mul_comm, Nat.div_div_eq_div_mul]
    rw [← Nat.add_assoc, lastDigits, ih, lastDigits, h, List.append_assoc]

theorem block_eq_lastDigits (k n : Nat) : block k n = lastDigits (twoPow k) n := by
  induction k generalizing n with
  | zero => simp [block, lastDigits, twoPow]
  | succ k ih =>
    have h : twoPow (k + 1) = twoPow k + twoPow k := by simp [twoPow, Nat.pow_succ, Nat.mul_two]
    rw [block, ih, ih, lastDigits_mod, h, lastDigits_add]

theorem digitChar_ne_zero {d : Nat} (pos : 0 < d) (lt : d < 10) : Nat.digitChar d ≠ '0' := by
  have : ∀ d : Fin 10, 0 < d.val → Nat.digitChar d.val ≠ '0' := by decide
  exact this ⟨d, lt⟩ pos

theorem dropWhile_lastDigits (m n : Nat) (h : n < tenPow m) :
    (lastDigits m n).dropWhile (· = '0') = if n = 0 then [] else Nat.toDigits 10 n := by
  induction m generalizing n with
  | zero =>
    have : n = 0 := by simpa [tenPow] using h
    simp [lastDigits, this]
  | succ m ih =>
    have hq : n / 10 < tenPow m := by
      have : tenPow (m + 1) = tenPow m * 10 := by simp [tenPow, Nat.pow_succ]
      omega
    rw [lastDigits, List.dropWhile_append, ih _ hq]
    by_cases hn : n < 10
    · have hz : n / 10 = 0 := by omega
      have hm : n % 10 = n := by omega
      rcases Nat.eq_zero_or_pos n with rfl | pos
      · simp [Nat.digitChar]
      · simp [hz, hm, digitChar_ne_zero pos hn, Nat.toDigits_of_lt_base hn, Nat.ne_of_gt pos]
    · have hz : n / 10 ≠ 0 := by omega
      have hd : n ≠ 0 := by omega
      rw [Nat.toDigits_eq_if (b := 10) (n := n) (by decide)]
      simp [hz, hd, hn]

theorem lt_tenPow_log2 (n : Nat) : n < tenPow (twoPow n.log2.log2) := by
  have h : n.log2 + 1 ≤ 2 * twoPow n.log2.log2 := by
    have : n.log2 < twoPow (n.log2.log2 + 1) := Nat.lt_log2_self
    simp only [twoPow, Nat.pow_succ, Nat.pow_eq] at this ⊢
    omega
  calc n < Nat.pow 2 (n.log2 + 1) := Nat.lt_log2_self
    _ ≤ Nat.pow 2 (2 * twoPow n.log2.log2) := Nat.pow_le_pow_right (by decide) h
    _ = Nat.pow 4 (twoPow n.log2.log2) := Nat.pow_mul 2 2 _
    _ ≤ tenPow (twoPow n.log2.log2) := Nat.pow_le_pow_left (by decide) _

/-- The way of writing shows in no digit. -/
theorem ofNat_eq (n : Nat) : ofNat n = Nat.toDigits 10 n := by
  unfold ofNat
  split
  · rfl
  · next h =>
    have hn : n ≠ 0 := by
      rintro rfl
      simp at h
    rw [block_eq_lastDigits, dropWhile_lastDigits _ _ (lt_tenPow_log2 n), if_neg hn]

end Digits

end MatchAlgebra
