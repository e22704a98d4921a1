/-!
# White space

The characters with the Unicode property White_Space, and texts without those at their ends.
-/

namespace MatchAlgebra

namespace WhiteSpace

/-- The first and the last code of every run of white space. -/
def runs : List (Nat × Nat) :=
  [(0x9, 0xd), (0x20, 0x20), (0x85, 0x85), (0xa0, 0xa0), (0x1680, 0x1680), (0x2000, 0x200a),
   (0x2028, 0x2029), (0x202f, 0x202f), (0x205f, 0x205f), (0x3000, 0x3000)]

def holds (c : Char) : Bool := runs.any fun (first, last) => first ≤ c.toNat && c.toNat ≤ last

/-- The text between the first and the last character that is not white space. -/
def trim (text : List Char) : List Char :=
  ((text.dropWhile holds).reverse.dropWhile holds).reverse

end WhiteSpace

end MatchAlgebra
