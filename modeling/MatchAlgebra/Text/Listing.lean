/-!
# Lists of things as text

Things in a row are separated by a comma and a blank: `a, b`.
-/

namespace MatchAlgebra

namespace Listing

def plain (parts : List String) : String := ", ".intercalate parts

/-- The same between square brackets. -/
def bracketed (parts : List String) : String := "[" ++ plain parts ++ "]"

end Listing

end MatchAlgebra
