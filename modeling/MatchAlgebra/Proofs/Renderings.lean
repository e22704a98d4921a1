import MatchAlgebra.Algebra.Supply
import MatchAlgebra.Plan.Outline
import MatchAlgebra.Proofs.Congruence

/-!
# Text and outline show one tree

The text of a plan and its outline are written by two recursions of their own.  Both go through the
conditions in one order: a condition before those of its input, and the conditions of a list oldest
first.  So the text can be read off the outline, a line for each node,

    plan.text  =  heading, then for each node  \n  two blanks for each level  description

and the nodes are those of the plan's conditions with all that is inside them (`text_of_outline`).
-/

namespace MatchAlgebra

/-! ## Nodes in order -/

namespace ConditionOutline

def id : ConditionOutline → Nat
  | .mk id _ _ _ _ _ => id

def description : ConditionOutline → String
  | .mk _ _ description _ _ _ => description

mutual

/-- The node and then those inside it, each with its depth. -/
def preorder (depth : Nat) : ConditionOutline → List (Nat × ConditionOutline)
  | .mk id kind description binds reads inner =>
    (depth, .mk id kind description binds reads inner) :: preorderAll (depth + 1) inner

def preorderAll (depth : Nat) : List ConditionOutline → List (Nat × ConditionOutline)
  | [] => []
  | c :: cs => c.preorder depth ++ preorderAll depth cs

end

/-- A node as one line below the heading of a plan. -/
def line (depth : Nat) (node : ConditionOutline) : String :=
  String.ofList (List.replicate (2 * (depth + 1)) ' ') ++ node.description

end ConditionOutline

/-! ## The nodes of conditions -/

namespace Condition

open ConditionOutline

theorem id_outline (c : Condition) : c.outline.id = c.id := by
  cases c <;> rfl

theorem outlines_eq_map (cs : List Condition) : outlines cs = cs.map outline := by
  induction cs with
  | nil => rfl
  | cons c cs ih => rw [outlines, ih, List.map_cons]

mutual

/-- The nodes of a condition are the outlines of its parts. -/
theorem nodes_outline (depth : Nat) (c : Condition) :
    (c.outline.preorder depth).map (·.2) = c.parts.map outline := by
  cases c with
  | step id s => rfl
  | group id grouping input =>
    exact congrArg (outline (.group id grouping input) :: ·) (nodes_outlines (depth + 1) input)

theorem nodes_outlines (depth : Nat) (cs : List Condition) :
    (preorderAll depth (outlines cs)).map (·.2) = (partsAll cs).map outline := by
  cases cs with
  | nil => rfl
  | cons c cs =>
    rw [outlines, preorderAll, partsAll, List.map_append, List.map_append, nodes_outline,
      nodes_outlines]

end

mutual

/-- The lines of a condition are those of its nodes. -/
theorem lines_eq (depth : Nat) (c : Condition) :
    c.lines (depth + 1) = (c.outline.preorder depth).map fun (d, node) => node.line d := by
  cases c with
  | step id s => rfl
  | group id grouping input =>
    exact congrArg (indented (depth + 1) (describe (.group id grouping input)) :: ·)
      (linesAll_eq (depth + 1) input)

theorem linesAll_eq (depth : Nat) (cs : List Condition) :
    linesAll (depth + 1) cs =
      (preorderAll depth (outlines cs)).map fun (d, node) => node.line d := by
  cases cs with
  | nil => rfl
  | cons c cs => rw [linesAll, outlines, preorderAll, List.map_append, lines_eq, linesAll_eq]

end

/-- Below a grouping stand the nodes of its log, oldest first. -/
theorem preorder_group_log (depth id : Nat) (grouping : Grouping) (log : Log) :
    (outline (.group id grouping log.oldestFirst)).preorder depth =
      (depth, outline (.group id grouping log.oldestFirst)) ::
        log.newestFirst.reverse.flatMap fun c => c.outline.preorder (depth + 1) := by
  have flat : ∀ cs : List Condition, preorderAll (depth + 1) (outlines cs) =
      cs.flatMap fun c => c.outline.preorder (depth + 1) := by
    intro cs
    induction cs with
    | nil => rfl
    | cons c cs ih => rw [outlines, preorderAll, ih, List.flatMap_cons]
  rw [outline, preorder, flat]
  rfl

end Condition

/-! ## Plans -/

/-- Lines below a first one, each after a line break. -/
theorem intercalate_newline (first : String) (lines : List String) :
    "\n".intercalate (first :: lines) = first ++ String.join (lines.map ("\n" ++ ·)) := by
  induction lines generalizing first with
  | nil => rw [String.intercalate_singleton, List.map_nil, String.join_nil, String.append_empty]
  | cons line lines ih =>
    rw [String.intercalate_cons_cons, ih, List.map_cons, String.join_cons, String.append_assoc,
      String.append_assoc]

namespace Plan

open ConditionOutline

/-- **The text of a plan is its outline, line by line.**  The nodes of the outline are the
conditions of the plan, each grouping followed by the conditions of its input. -/
theorem text_of_outline (plan : Plan) :
    let nodes := preorderAll 0 plan.outline.conditions
    plan.text = plan.heading ++ String.join (nodes.map fun (depth, node) =>
      "\n" ++ String.ofList (List.replicate (2 * (depth + 1)) ' ') ++ node.description) ∧
    nodes.map (·.2) = (Condition.partsAll plan.conditions).map Condition.outline ∧
    nodes.map (·.2.id) = (Condition.partsAll plan.conditions).map Condition.id ∧
    ∀ (depth id : Nat) (grouping : Grouping) (log : Log),
      let c := Condition.group id grouping log.oldestFirst
      c.outline.preorder depth =
        (depth, c.outline) ::
          log.newestFirst.reverse.flatMap fun inner => inner.outline.preorder (depth + 1) := by
  intro nodes
  have conditions : plan.outline.conditions = Condition.outlines plan.conditions :=
    (Condition.outlines_eq_map _).symm
  have outlines : nodes.map (·.2) = (Condition.partsAll plan.conditions).map Condition.outline := by
    rw [← Condition.nodes_outlines 0, ← conditions]
  refine ⟨?_, outlines, ?_, Condition.preorder_group_log⟩
  · rw [text, Condition.linesAll_eq 0, ← conditions, intercalate_newline, List.map_map]
    simp only [Function.comp_def, line, ← String.append_assoc]
    rfl
  · have ids := congrArg (List.map ConditionOutline.id) outlines
    rw [List.map_map, List.map_map] at ids
    refine ids.trans (List.map_congr_left fun c _ => c.id_outline)

end Plan

end MatchAlgebra
