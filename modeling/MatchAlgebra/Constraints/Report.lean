import MatchAlgebra.Session.Basic
import MatchAlgebra.Settings.Basic
import MatchAlgebra.Text.Json

/-!
# Reports

A report says what the compiled constraints make of given facts: the matches of each and their total
weight, the score, which is the sum of the totals, and for each fact in how many matches it takes
part.
-/

namespace MatchAlgebra

structure ConstraintReport where
  name : String
  found : List Match
  total : Weight

structure Report where
  /-- the handles of the given facts, in the order they were given -/
  facts : List Nat
  constraints : List ConstraintReport
  score : Weight
  /-- facts that take part in matches, with the number of matches -/
  indictments : Std.TreeMap Nat Nat

namespace ConstraintReport

def ofMatches (plan : Plan) (found : List Match) : ConstraintReport :=
  ⟨plan.name.getD "anonymous", found, Weight.sum (found.map (·.weight))⟩

def matchCount (report : ConstraintReport) : Nat := report.found.length

end ConstraintReport

/-- The reports of plans evaluated one after the other in a session, each in an order of its own. -/
def reportAll (session : Session) (visits : Nat → Visits) :
    List Plan → Except SessionError (List ConstraintReport)
  | [] => return []
  | plan :: plans => do
    let (result, session) := session.evaluate plan (visits plans.length)
    let found ← result
    let rest ← reportAll session visits plans
    return ConstraintReport.ofMatches plan found :: rest

namespace Report

/-- How often each handle occurs. -/
def countHandles (handles : List Nat) : Std.TreeMap Nat Nat :=
  handles.foldl (fun counts handle => counts.insert handle (counts.getD handle 0 + 1)) ∅

/-- Evaluates plans over exactly the given facts, in a fresh session. -/
def given (settings : SessionSettings) (plans : List Plan) (facts : List (FactType × Value))
    (visits : Nat → Visits := fun _ => .ascending) : Except SessionError Report := do
  let (session, handles) := (Session.start settings.maxBindings).insertAll facts
  let reports ← reportAll session visits plans
  let involved := reports.flatMap fun report => report.found.flatMap (·.facts)
  return ⟨handles, reports, Weight.sum (reports.map (·.total)), countHandles involved⟩

/-! ## Questions to a report -/

/-- The first report of a name. -/
def constraint? (report : Report) (name : String) : Option ConstraintReport :=
  report.constraints.find? (·.name = name)

/-- Zero for a name that no constraint has. -/
def matchCount (report : Report) (name : String) : Nat :=
  ((report.constraint? name).map (·.matchCount)).getD 0

def total? (report : Report) (name : String) : Option Weight :=
  (report.constraint? name).map (·.total)

def indictmentCount (report : Report) (handle : Nat) : Nat :=
  report.indictments.getD handle 0

/-- The handle of the fact given at a position. -/
def fact? (report : Report) (position : Nat) : Option Nat := report.facts[position]?

end Report

/-! ## Writing -/

def Weight.toJson : Weight → Json
  | .long n => .integer n.toInt
  | .decimal d => .text d.text

def ConstraintReport.toJson (report : ConstraintReport) : Json :=
  .object [("name", .text report.name), ("match_count", .integer report.matchCount),
    ("total", report.total.toJson)]

def Report.toJson (report : Report) : String :=
  let indictments := report.indictments.toList.map fun (handle, count) =>
    (toString handle, Json.integer count)
  let document := Json.object
    [("facts", .array (report.facts.map fun (handle : Nat) => .integer handle)),
      ("constraints", .array (report.constraints.map (·.toJson))),
      ("score", report.score.toJson),
      ("indictments", .object indictments)]
  document.pretty 0

end MatchAlgebra
