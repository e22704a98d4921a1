import MatchAlgebra.Plan.Basic
import MatchAlgebra.Text.Json

/-!
# Outlines of plans

A plan can be read in two ways: `text` gives a heading and one line for each condition, indented
below the grouping it belongs to; `outline` gives the same conditions as a tree with what each of
them binds and reads, which `toJson` writes out.
-/

namespace MatchAlgebra

/-- A condition as data, with the conditions of its input. -/
inductive ConditionOutline where
  | mk (id : Nat) (kind description : String) (binds reads : List String)
      (inner : List ConditionOutline)

structure PlanOutline where
  name : Option String
  visible : List String
  weigher : String
  conditions : List ConditionOutline

namespace Condition

mutual

def outline : Condition → ConditionOutline
  | .step id s =>
    let c := Condition.step id s
    .mk id c.kindName c.describe (c.binds.map (·.name)) (c.reads.map (·.name)) []
  | .group id grouping input =>
    let c := Condition.group id grouping input
    .mk id c.kindName c.describe (c.binds.map (·.name)) (c.reads.map (·.name))
      (outlines input)

def outlines : List Condition → List ConditionOutline
  | [] => []
  | c :: cs => c.outline :: outlines cs

end

end Condition

namespace ConditionOutline

def names (list : List String) : Json := .array (list.map .text)

mutual

/-- The conditions of an empty input are left out. -/
def toJson : ConditionOutline → Json
  | .mk id kind description binds reads inner =>
    let inside := toJsonAll inner
    .object ([("id", .integer id), ("kind", .text kind), ("description", .text description),
      ("binds", names binds), ("reads", names reads)]
      ++ if inside.isEmpty then [] else [("inner", .array inside)])

def toJsonAll : List ConditionOutline → List Json
  | [] => []
  | c :: cs => c.toJson :: toJsonAll cs

end

end ConditionOutline

namespace Plan

def heading (plan : Plan) : String :=
  let name := plan.name.getD "anonymous"
  s!"Plan({name}) visible=[{Variable.names plan.visible}] weigher={plan.weigher.name}"

def text (plan : Plan) : String :=
  "\n".intercalate (plan.heading :: Condition.linesAll 1 plan.conditions)

def outline (plan : Plan) : PlanOutline :=
  ⟨plan.name, plan.visible.map (·.name), plan.weigher.name,
    plan.conditions.map Condition.outline⟩

def toJson (plan : Plan) : String :=
  let s := plan.outline
  let name := match s.name with
    | some name => Json.text name
    | none => .null
  let document := Json.object [("name", name), ("visible", ConditionOutline.names s.visible),
    ("weigher", .text s.weigher), ("conditions", .array (s.conditions.map (·.toJson)))]
  document.pretty 0

end Plan

end MatchAlgebra
