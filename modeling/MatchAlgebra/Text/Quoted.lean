import MatchAlgebra.Text.Printable

/-!
# Quoted names

A name between quotation marks, with escapes for what could be mistaken: quotation marks,
backslashes and characters that are not printable, which are written by their code in hexadecimal
unless they have a letter of their own.
-/

namespace MatchAlgebra

namespace Quoted

def escape (c : Char) : List Char :=
  if c = '"' || c = '\\' then ['\\', c]
  else if c = '\n' then ['\\', 'n']
  else if c = '\r' then ['\\', 'r']
  else if c = '\t' then ['\\', 't']
  else if c.toNat = 0 then ['\\', '0']
  else if Printable.holds c then [c]
  else ['\\', 'u', '\x7b'] ++ Nat.toDigits 16 c.toNat ++ ['\x7d']

def encode (name : String) : String :=
  String.ofList ('"' :: name.toList.flatMap escape ++ ['"'])

end Quoted

end MatchAlgebra
