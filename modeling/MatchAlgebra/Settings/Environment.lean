import MatchAlgebra.Number.Digits
import MatchAlgebra.Settings.Literal
import MatchAlgebra.Settings.Tree
import MatchAlgebra.Text.WhiteSpace

/-!
# Settings from the environment

A variable `MATCHPLAN_SECTION__KEY` sets one key of one section; two underscores separate the names.
Its text is read as a boolean, a number, a quoted text, a list in brackets or a table in braces
where it is one as a whole, and as text otherwise.
-/

namespace MatchAlgebra

namespace Environment

/-! ## Names -/

def start : List Char := "matchplan_".toList

/-- The path of names that a variable sets.  Variables with another beginning set nothing, and
neither do those with an empty name in the path. -/
def path? (variableName : String) : Option (List String) :=
  let name := (WhiteSpace.trim variableName.toList).map Char.toLower
  if start.isPrefixOf name then
    let rest := String.ofList (WhiteSpace.trim (name.drop start.length))
    let path := (rest.splitOn "__").flatMap (·.splitOn ".")
    if path.any String.isEmpty then none else some path
  else none

/-! ## Words -/

def isSpace (c : Char) : Bool := c = ' ' || c = '\t' || c = '\n' || c = '\x0c' || c = '\r'

def skipSpace (chars : List Char) : List Char := chars.dropWhile isSpace

/-- The characters that end a word. -/
def isSeparator (c : Char) : Bool :=
  c = ',' || c = '\x7b' || c = '\x7d' || c = '[' || c = ']'

/-- A natural number of 64 bits, or a negative one. -/
def readInteger? (word : List Char) : Option Int :=
  (Digits.readInt? word).filter fun n => -9223372036854775808 ≤ n && n ≤ 18446744073709551615

/-- Whether nothing or an exponent is left of a number. -/
def isExponent : List Char → Bool
  | [] => true
  | c :: rest => (c = 'e' || c = 'E') && Digits.isNumeral (Digits.splitSign rest).2

/-- Digits with a point among them, and perhaps an exponent. -/
def isFraction (word : List Char) : Bool :=
  let unsigned := (Digits.splitSign word).2
  let whole := unsigned.takeWhile Char.isDigit
  match unsigned.dropWhile Char.isDigit with
  | '.' :: rest =>
    Digits.isNumeral (whole ++ rest.takeWhile Char.isDigit)
      && isExponent (rest.dropWhile Char.isDigit)
  | _ => false

/-- A number where the word spells one. -/
def readWord (word : List Char) : Setting :=
  if isFraction word then .fraction
  else match readInteger? word with
    | some n => .integer n
    | none => .text (String.ofList word)

/-! ## Values -/

/-- The characters that fit into a number of bytes. -/
def takeBytes : Nat → List Char → List Char
  | _, [] => []
  | bytes, c :: rest =>
    if c.utf8Size ≤ bytes then c :: takeBytes (bytes - c.utf8Size) rest else []

/-- Text in double quotes.  What stands before the first escape is cut: only as many bytes of it
count as it has characters. -/
def readQuoted? (chars : List Char) : Option (String × List Char) := do
  let (text, rest) ← Literal.readQuoted? chars
  let plain := chars.takeWhile fun c => c ≠ '\\' && c ≠ '"'
  let escaped := chars[plain.length]? = some '\\'
  let kept := if escaped then takeBytes plain.length plain else plain
  return (String.ofList (kept ++ text.drop plain.length), rest)

/-- A name, plain or in quotes, with the space around it. -/
def readName? (chars : List Char) : Option (String × List Char) := do
  let (name, rest) ← match skipSpace chars with
    | '"' :: rest => readQuoted? rest
    | chars => Literal.readKey? chars
  return (name, skipSpace rest)

mutual

/-- A value with the space around it, and what follows it.  Calls within take a unit of fuel. -/
def readValue? : Nat → List Char → Option (Setting × List Char)
  | 0, _ => none
  | fuel + 1, chars => do
    let (value, rest) ← match skipSpace chars with
      | 't' :: 'r' :: 'u' :: 'e' :: rest => some (.bool true, rest)
      | 'f' :: 'a' :: 'l' :: 's' :: 'e' :: rest => some (.bool false, rest)
      | '\x7b' :: rest =>
        (readEntries? fuel rest).map fun (entries, rest) => (.table entries, rest)
      | '[' :: rest => (readItems? fuel rest).map fun (items, rest) => (.list items, rest)
      | '"' :: rest => (readQuoted? rest).map fun (text, rest) => (.text text, rest)
      | '\x27' :: c :: '\x27' :: rest => some (.text (String.ofList [c]), rest)
      | '\x27' :: _ => none
      | chars =>
        let word := chars.takeWhile fun c => !isSeparator c
        some (readWord (WhiteSpace.trim word), chars.drop word.length)
    return (value, skipSpace rest)

/-- The items up to the closing bracket, and what follows it. -/
def readItems? : Nat → List Char → Option (List Setting × List Char)
  | 0, _ => none
  | _ + 1, ']' :: rest => some ([], rest)
  | fuel + 1, chars => do
    let (item, rest) ← readValue? fuel chars
    match rest with
    | ',' :: rest =>
      let (items, rest) ← readItems? fuel rest
      return (item :: items, rest)
    | ']' :: rest => return ([item], rest)
    | _ => none

/-- The entries up to the closing brace, and what follows it.  Of entries with one name the last
counts. -/
def readEntries? : Nat → List Char → Option (List (String × Setting) × List Char)
  | 0, _ => none
  | _ + 1, '\x7d' :: rest => some ([], rest)
  | fuel + 1, chars => do
    let (name, rest) ← readName? chars
    let '=' :: rest := rest | none
    let (value, rest) ← readValue? fuel rest
    match rest with
    | ',' :: rest =>
      let (entries, rest) ← readEntries? fuel rest
      return (if (entries.lookup name).isSome then entries else (name, value) :: entries, rest)
    | '\x7d' :: rest => return ([(name, value)], rest)
    | _ => none

end

/-- The value that a text spells as a whole; text that spells none stands for itself.  Of two nested
readers one at least takes a character, so that twice the length is fuel enough. -/
def readValue (text : String) : Setting :=
  let chars := text.toList
  match readValue? (2 * chars.length + 2) chars with
  | some (value, []) => value
  | _ => .text text

/-- The settings of all variables, later ones counting. -/
def read (entries : List (String × String)) : Setting :=
  entries.foldl (fun tree (name, text) =>
    match path? name with
    | some path => tree.merge (Setting.nest path (readValue text))
    | none => tree) (.table [])

end Environment

end MatchAlgebra
