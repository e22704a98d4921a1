import MatchAlgebra.Settings.Literal
import MatchAlgebra.Settings.Tree

/-!
# Settings files

The part of TOML that settings files are written in: comments, `[section]` headers, and lines
`key = value` with a boolean, an integer of 64 bits or a string in double quotes.  No name may be
given twice in one place.

Two names are reserved within sections.  A section with a value under `valueName` stands for that
value alone, and one with an entry under `tagName` is not well formed.
-/

namespace MatchAlgebra

namespace Document

def isBlank (c : Char) : Bool := c = ' ' || c = '\t'

def skipBlanks (line : List Char) : List Char := line.dropWhile isBlank

/-- Whether nothing but blanks and a comment is left of a line. -/
def isDone (line : List Char) : Bool :=
  match skipBlanks line with
  | [] => true
  | c :: rest => c = '#' && rest.all Literal.isTextChar

/-! ## Values -/

/-- A decimal numeral without a zero in front of other digits. -/
def readDecimal? (word : List Char) : Option Nat :=
  if word.head? = some '0' && word ≠ ['0'] then none else Literal.readNumeral? 10 word

/-- A decimal numeral with or without a sign, or one in base 16, 8 or 2. -/
def readNumber? : List Char → Option Int
  | '0' :: 'x' :: digits => (Literal.readNumeral? 16 digits).map Int.ofNat
  | '0' :: 'o' :: digits => (Literal.readNumeral? 8 digits).map Int.ofNat
  | '0' :: 'b' :: digits => (Literal.readNumeral? 2 digits).map Int.ofNat
  | '-' :: digits => (readDecimal? digits).map fun n => -(n : Int)
  | '+' :: digits => (readDecimal? digits).map Int.ofNat
  | digits => (readDecimal? digits).map Int.ofNat

/-- A number of 64 bits. -/
def readInteger? (word : List Char) : Option Int :=
  (readNumber? word).filter fun n => -9223372036854775808 ≤ n && n ≤ 9223372036854775807

/-- A value, and what follows it. -/
def readValue? : List Char → Option (Setting × List Char)
  | '"' :: rest =>
    (Literal.readQuoted? rest).map fun (chars, rest) => (.text (String.ofList chars), rest)
  | line =>
    let isWordChar := fun c => Literal.isKeyChar c || c = '+'
    let word := line.takeWhile isWordChar
    let rest := line.dropWhile isWordChar
    if word = "true".toList then some (.bool true, rest)
    else if word = "false".toList then some (.bool false, rest)
    else (readInteger? word).map fun n => (.integer n, rest)

/-! ## Lines -/

/-- What has been read: all entries, and the section that further lines belong to. -/
structure Reading where
  entries : List (String × Setting)
  current : Option String

namespace Reading

/-- Opens a section that has not been opened before. -/
def openSection? (reading : Reading) (name : String) : Option Reading :=
  if (reading.entries.lookup name).isSome then none
  else some ⟨reading.entries ++ [(name, .table [])], some name⟩

def addTo? (name : String) (value : Setting) (entries : List (String × Setting)) :
    Option (List (String × Setting)) :=
  if (entries.lookup name).isSome then none else some (entries ++ [(name, value)])

/-- Adds an entry to the current section. -/
def add? (reading : Reading) (name : String) (value : Setting) : Option Reading :=
  match reading.current with
  | none => (addTo? name value reading.entries).map fun entries => { reading with entries }
  | some sectionName => do
    let .table inside ← reading.entries.lookup sectionName | none
    let inside ← addTo? name value inside
    return { reading with entries := Setting.put sectionName (.table inside) reading.entries }

def line? (reading : Reading) (line : List Char) : Option Reading :=
  match skipBlanks line with
  | '[' :: rest => do
    let (name, rest) ← Literal.readKey? (skipBlanks rest)
    let ']' :: rest := skipBlanks rest | none
    if isDone rest then reading.openSection? name else none
  | rest =>
    if isDone rest then some reading
    else do
      let (name, rest) ← Literal.readKey? rest
      let '=' :: rest := skipBlanks rest | none
      let (value, rest) ← readValue? (skipBlanks rest)
      if isDone rest then reading.add? name value else none

end Reading

/-- The lines of a text.  A line feed ends a line, and a carriage return before it belongs to it. -/
def lines : List Char → List (List Char)
  | [] => [[]]
  | '\n' :: rest => [] :: lines rest
  | '\r' :: '\n' :: rest => [] :: lines rest
  | c :: rest =>
    match lines rest with
    | line :: others => (c :: line) :: others
    | [] => [[c]]

/-- A text without the byte order mark that may open it. -/
def skipMark : List Char → List Char
  | '\ufeff' :: rest => rest
  | chars => chars

/-! ## Reserved names -/

/-- The name of the value that a section stands for. -/
def valueName : String := "___figment_value_value"

/-- The name of the tag that tells sources apart.  No value of a file is a tag. -/
def tagName : String := "___figment_value_id"

/-- The value that a section stands for: the one it names, or else its own entries.  Sections hold
no sections, so no entry needs to be resolved in turn. -/
def resolve? : Setting → Option Setting
  | .table entries =>
    if (entries.lookup tagName).isSome then none
    else some ((entries.lookup valueName).getD (.table entries))
  | value => some value

/-- Reads a settings file, or fails if it is not well formed. -/
def read? (text : String) : Option Setting := do
  let reading ← (lines (skipMark text.toList)).foldlM Reading.line? ⟨[], none⟩
  let entries ← reading.entries.mapM fun (name, value) => (resolve? value).map (name, ·)
  return .table entries

end Document

end MatchAlgebra
