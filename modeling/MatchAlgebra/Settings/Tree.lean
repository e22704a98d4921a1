/-!
# Trees of settings

What a source of settings says, before it is known which settings there are: values under names,
nested in tables.  Sources are merged name by name, and the later one counts.
-/

namespace MatchAlgebra

inductive Setting where
  | null
  | bool (b : Bool)
  | integer (n : Int)
  /-- a number that is not whole -/
  | fraction
  | text (s : String)
  | list (items : List Setting)
  | table (entries : List (String × Setting))
  deriving Inhabited

namespace Setting

/-- Gives a name another value, or a value at the end of the entries. -/
def put (name : String) (value : Setting) : List (String × Setting) → List (String × Setting)
  | [] => [(name, value)]
  | (other, old) :: rest =>
    if name = other then (name, value) :: rest else (other, old) :: put name value rest

mutual

/-- Tables are merged entry by entry; anything else is replaced. -/
def merge (older newer : Setting) : Setting :=
  match older, newer with
  | .table entries, .table others => .table (mergeEntries entries others)
  | _, newer => newer
termination_by sizeOf newer

def mergeEntries (entries : List (String × Setting)) :
    List (String × Setting) → List (String × Setting)
  | [] => entries
  | (name, value) :: others =>
    let merged := match entries.lookup name with
      | some older => merge older value
      | none => value
    mergeEntries (put name merged entries) others
termination_by others => sizeOf others

end

/-- The value under a path of names. -/
def nest : List String → Setting → Setting
  | [], value => value
  | name :: path, value => .table [(name, nest path value)]

end Setting

end MatchAlgebra
