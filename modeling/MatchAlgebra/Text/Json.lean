/-!
# JSON documents

The documents that reports are written as, with an indented layout: one item a line, two blanks
deeper for each level, `[]` and `{}` for what is empty.  Fields keep their order.
-/

namespace MatchAlgebra

inductive Json where
  | null
  | integer (n : Int)
  | text (s : String)
  | array (items : List Json)
  | object (fields : List (String × Json))

namespace Json

/-! ## Quoted text -/

def hexDigit (n : Nat) : Char := Nat.digitChar n

/-- A quotation mark, a backslash and control characters are escaped, nothing else is. -/
def escape (c : Char) : List Char :=
  if c = '"' then ['\\', '"']
  else if c = '\\' then ['\\', '\\']
  else if c = '\n' then ['\\', 'n']
  else if c = '\r' then ['\\', 'r']
  else if c = '\t' then ['\\', 't']
  else if c.toNat = 8 then ['\\', 'b']
  else if c.toNat = 12 then ['\\', 'f']
  else if c.toNat < 32 then
    ['\\', 'u', '0', '0', hexDigit (c.toNat / 16), hexDigit (c.toNat % 16)]
  else [c]

def quote (s : String) : String := String.ofList ('"' :: s.toList.flatMap escape ++ ['"'])

/-! ## Layout -/

def newline (depth : Nat) : String := String.ofList ('\n' :: List.replicate (2 * depth) ' ')

/-- Items between brackets, each on a line of its own. -/
def block (opening closing : String) (depth : Nat) (items : List String) : String :=
  if items.isEmpty then opening ++ closing
  else
    opening ++ newline (depth + 1) ++ ("," ++ newline (depth + 1)).intercalate items
      ++ newline depth ++ closing

mutual

def pretty (depth : Nat) : Json → String
  | .null => "null"
  | .integer n => toString n
  | .text s => quote s
  | .array items => block "[" "]" depth (prettyAll (depth + 1) items)
  | .object fields => block "\x7b" "\x7d" depth (prettyFields (depth + 1) fields)

def prettyAll (depth : Nat) : List Json → List String
  | [] => []
  | item :: items => item.pretty depth :: prettyAll depth items

def prettyFields (depth : Nat) : List (String × Json) → List String
  | [] => []
  | (name, value) :: fields =>
    (quote name ++ ": " ++ value.pretty depth) :: prettyFields depth fields

end

end Json

end MatchAlgebra
