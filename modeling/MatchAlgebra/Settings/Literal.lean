/-!
# Literals

The spellings that settings files and the environment share: names, numerals in a base, and text in
double quotes.  Readers on a list of characters take what they know from its front.

    readKey? "level = 1"  =  some ("level", " = 1")
    readNumeral? 16 "f_f" =  some 255
    readQuoted? "a\\tb\"c" =  some ("a⇥b", "c")
-/

namespace MatchAlgebra

namespace Literal

/-! ## Names -/

def isKeyChar (c : Char) : Bool := c.isAlphanum || c = '_' || c = '-'

/-- A name, and what follows it. -/
def readKey? (chars : List Char) : Option (String × List Char) :=
  let key := chars.takeWhile isKeyChar
  if key.isEmpty then none else some (String.ofList key, chars.dropWhile isKeyChar)

/-! ## Numerals -/

/-- The value of a digit in bases up to sixteen. -/
def digitValue? (c : Char) : Option Nat :=
  if c.isDigit then some (c.toNat - '0'.toNat)
  else if 'a' ≤ c && c ≤ 'f' then some (c.toNat - 'a'.toNat + 10)
  else if 'A' ≤ c && c ≤ 'F' then some (c.toNat - 'A'.toNat + 10)
  else none

/-- The number whose digits are those of `n` and the given ones, of which there is at least one. -/
def readDigits? (base n : Nat) (digits : List Char) : Option Nat :=
  if digits.isEmpty then none
  else digits.foldlM (fun n c => ((digitValue? c).filter (· < base)).map (base * n + ·)) n

/-- Digits with single underscores between them. -/
def readNumeral? (base : Nat) (word : List Char) : Option Nat :=
  ((String.ofList word).splitOn "_").foldlM (fun n group => readDigits? base n group.toList) 0

/-! ## Text in quotes -/

/-- Text holds no control characters but tabs. -/
def isTextChar (c : Char) : Bool := c = '\t' || (32 ≤ c.toNat && c.toNat ≠ 127)

/-- The character of a hexadecimal code. -/
def codePoint? (digits : List Char) : Option Char := do
  let code ← readDigits? 16 0 digits
  if h : code.isValidChar then some (Char.ofNatAux code h) else none

def unescape? : Char → Option Char
  | 'b' => some '\x08'
  | 't' => some '\t'
  | 'n' => some '\n'
  | 'f' => some '\x0c'
  | 'r' => some '\r'
  | '"' => some '"'
  | '\\' => some '\\'
  | _ => none

/-- The characters up to the closing quotation mark, and what follows it. -/
def readQuoted? : List Char → Option (List Char × List Char)
  | [] => none
  | '"' :: rest => some ([], rest)
  | '\\' :: 'u' :: a :: b :: c :: d :: rest => do
    let char ← codePoint? [a, b, c, d]
    let (chars, rest) ← readQuoted? rest
    return (char :: chars, rest)
  | '\\' :: 'U' :: a :: b :: c :: d :: e :: f :: g :: h :: rest => do
    let char ← codePoint? [a, b, c, d, e, f, g, h]
    let (chars, rest) ← readQuoted? rest
    return (char :: chars, rest)
  | '\\' :: c :: rest => do
    let char ← unescape? c
    let (chars, rest) ← readQuoted? rest
    return (char :: chars, rest)
  | c :: rest =>
    if c = '\\' || !isTextChar c then none
    else do
      let (chars, rest) ← readQuoted? rest
      return (c :: chars, rest)

end Literal

end MatchAlgebra
