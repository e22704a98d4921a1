import MatchAlgebra.Session.Evaluation

/-!
# Sessions

A session holds facts under handles that are never used twice, and evaluates plans against them.
What it keeps of an evaluation are the partitions of groupings.
-/

namespace MatchAlgebra

structure Session where
  /-- in the order of their handles -/
  facts : List Fact
  nextHandle : Nat
  /-- the most rows an evaluation may hold at once, zero for any number -/
  maxBindings : Nat
  groups : GroupStore

namespace Session

def start (maxBindings : Nat) : Session := ⟨[], 1, maxBindings, ∅⟩

/-! ## Facts -/

def insert (session : Session) (type : FactType) (value : Value) : Session × Nat :=
  let fact : Fact := ⟨session.nextHandle, type, value⟩
  ({ session with facts := session.facts ++ [fact], nextHandle := session.nextHandle + 1 },
    session.nextHandle)

/-- Inserts facts one after the other and gives their handles. -/
def insertAll (session : Session) : List (FactType × Value) → Session × List Nat
  | [] => (session, [])
  | (type, value) :: rest =>
    let (session, handle) := session.insert type value
    let (session, handles) := session.insertAll rest
    (session, handle :: handles)

def get? (session : Session) (handle : Nat) : Option Value :=
  (session.facts.find? (·.handle = handle)).map (·.value)

/-- Gives a fact another value; its handle and type stay. -/
def update (session : Session) (handle : Nat) (value : Value) : Except SessionError Session :=
  if session.facts.any (·.handle = handle) then
    let change := fun fact : Fact => if fact.handle = handle then { fact with value } else fact
    .ok { session with facts := session.facts.map change }
  else .error (.unknownFact handle)

/-- Removes a fact and gives its last value. -/
def retract (session : Session) (handle : Nat) : Except SessionError (Session × Value) :=
  match session.get? handle with
  | some value =>
    .ok ({ session with facts := session.facts.filter (·.handle ≠ handle) }, value)
  | none => .error (.unknownFact handle)

/-! ## Evaluation -/

/-- The matches of a plan over the facts as they are. -/
def evaluate (session : Session) (plan : Plan) (visits : Visits := .ascending) :
    Except SessionError (List Match) × Session :=
  let (result, groups) :=
    (plan.evaluate visits session.facts session.maxBindings).run.run session.groups
  (result, { session with groups })

def text (session : Session) : String :=
  s!"Session \x7b facts: {session.facts.length}, groups: {session.groups.size}, "
    ++ s!"max_bindings: {session.maxBindings} \x7d"

end Session

/-- A handle as text: `fact#3`. -/
def handleText (handle : Nat) : String := s!"fact#{handle}"

end MatchAlgebra
