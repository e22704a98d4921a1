import MatchAlgebra.Settings.Document
import MatchAlgebra.Settings.Environment

/-!
# Settings

Settings come in three sections.  What no source sets has a default; names that are not known are
passed over.  They are read from a main file, a local file that overrides it, and the environment,
which overrides both.

A section is a table, or a list of values in the order in which its fields are declared.  Of several
faults the first is reported: in a table in the order of names, in a list in the order of its items.
-/

namespace MatchAlgebra

/-- How constraints are compiled. -/
structure CompilerSettings where
  /-- check every plan for reads of unbound variables -/
  verifyPlans : Bool := true
  parallel : Bool := true
  /-- zero leaves the number open -/
  numThreads : Nat := 0
  deriving DecidableEq

structure SessionSettings where
  /-- zero is no limit -/
  maxBindings : Nat := 1000000
  deriving DecidableEq

structure LoggingSettings where
  level : String := "info"
  format : String := "text"
  deriving DecidableEq

structure Settings where
  compiler : CompilerSettings := {}
  session : SessionSettings := {}
  logging : LoggingSettings := {}
  deriving DecidableEq

inductive SettingsError where
  /-- a file is not well formed -/
  | malformed
  /-- the value under a path is of another kind -/
  | wrongType (path : List String)
  /-- the value under a path is out of range -/
  | wrongValue (path : List String)
  deriving DecidableEq

/-- The path to the fault, its names joined by points. -/
def SettingsError.location : SettingsError → String
  | .malformed => ""
  | .wrongType path => ".".intercalate path
  | .wrongValue path => ".".intercalate path

namespace Settings

/-! ## Reading a tree -/

/-- A reader of the value under a path. -/
abbrev Reader (α : Type) := List String → Setting → Except SettingsError α

def readBool : Reader Bool
  | _, .bool b => .ok b
  | path, _ => .error (.wrongType path)

def readText : Reader String
  | _, .text s => .ok s
  | path, _ => .error (.wrongType path)

/-- A natural number of 64 bits. -/
def readNat : Reader Nat
  | path, .integer n =>
    if n < 0 then .error (.wrongValue path)
    else if n ≤ 18446744073709551615 then .ok n.toNat
    else .error (.wrongType path)
  | path, _ => .error (.wrongType path)

/-! ## Sections -/

/-- A field of `α`: its name, and a reader of the change that a value makes. -/
structure Field (α : Type) where
  name : String
  read : Reader (α → α)

def field {α β : Type} (name : String) (read : Reader β) (set : β → α → α) : Field α :=
  ⟨name, fun path value => set <$> read path value⟩

/-- A value for a field, with the label that shows in its path. -/
structure Assignment (α : Type) where
  label : String
  field : Field α
  value : Setting

/-- The values that a table gives to fields, in the order of names. -/
def fromTable {α : Type} (fields : List (Field α)) (entries : List (String × Setting)) :
    List (Assignment α) :=
  (fields.mergeSort fun a b => decide (a.name ≤ b.name)).filterMap fun field =>
    (entries.lookup field.name).map fun value => ⟨field.name, field, value⟩

/-- The values that a list gives to fields, as far as there are fields. -/
def fromList {α : Type} (fields : List (Field α)) (items : List Setting) : List (Assignment α) :=
  (fields.zip items).zipIdx.map fun ((field, value), index) => ⟨toString index, field, value⟩

/-- Changes a section by its assignments in their order. -/
def assign {α : Type} (path : List String) (part : α) :
    List (Assignment α) → Except SettingsError α
  | [] => .ok part
  | a :: rest => do
    let change ← a.field.read (path ++ [a.label]) a.value
    assign path (change part) rest

/-- Whether a list may have more items than there are fields. -/
inductive Surplus where
  | passedOver
  | refused
  deriving DecidableEq

def readSection {α : Type} (surplus : Surplus) (fields : List (Field α)) (default : α) : Reader α
  | path, .table entries => assign path default (fromTable fields entries)
  | path, .list items =>
    if surplus = .refused ∧ fields.length < items.length then .error (.wrongType path)
    else assign path default (fromList fields items)
  | path, _ => .error (.wrongType path)

def compilerFields : List (Field CompilerSettings) :=
  [field "verify_plans" readBool fun b s => { s with verifyPlans := b },
    field "parallel" readBool fun b s => { s with parallel := b },
    field "num_threads" readNat fun n s => { s with numThreads := n }]

def sessionFields : List (Field SessionSettings) :=
  [field "max_bindings" readNat fun n s => { s with maxBindings := n }]

def loggingFields : List (Field LoggingSettings) :=
  [field "level" readText fun text s => { s with level := text },
    field "format" readText fun text s => { s with format := text }]

def fields (surplus : Surplus) : List (Field Settings) :=
  [field "compiler" (readSection surplus compilerFields {}) fun c s => { s with compiler := c },
    field "session" (readSection surplus sessionFields {}) fun c s => { s with session := c },
    field "logging" (readSection surplus loggingFields {}) fun c s => { s with logging := c }]

def ofTree (surplus : Surplus) (tree : Setting) : Except SettingsError Settings :=
  readSection surplus (fields surplus) {} [] tree

/-! ## Reading the sources -/

/-- What a file says; a file that does not exist says nothing. -/
def readFile : Option String → Except SettingsError Setting
  | none => .ok (.table [])
  | some text =>
    match Document.read? text with
    | some tree => .ok tree
    | none => .error .malformed

/-- Merges files, the later ones counting, and lets the environment override them. -/
def load (files : List (Option String)) (environment : List (String × String)) :
    Except SettingsError Settings := do
  let trees ← files.mapM readFile
  let merged := trees.foldl Setting.merge (.table [])
  ofTree .passedOver (merged.merge (Environment.read environment))

end Settings

end MatchAlgebra
