import Flowchart.Proofs.Flow.StatementStep

/-! Which flow nodes a statement makes, apart from the ones of the statements that it holds. -/
namespace Flowchart

namespace Tree

/-- What an expression statement is, if it is more than an expression. -/
def operationKind? (src : Source) (t : Tree) : Option NodeKind :=
  (t.firstStatement?.bind unwrap).bind fun x =>
    if x.type = "call_expression" then
      if (Platform.callee? x).any isFunction then some .function
      else if Platform.isPlatformCall src x then some .platformCall
      else some .genericCall
    else if ["assignment_expression", "augmented_assignment_expression"].contains x.type then
      if ((x.field? "right").bind unwrap).any (Platform.isPlatformCall src) then some .assignment
      else some .genericAssignment
    else if x.type = "update_expression" then some .genericAssignment
    else none

/-- A node of a kind that stands for a tree. -/
def asNode (src : Source) (k : NodeKind) (t : Tree) : NodeKind × CharRange :=
  (k, src.range t.span)

/-- The nodes that a tree makes in statement position, apart from the ones that other places
make. -/
def made (src : Source) (t : Tree) : List (NodeKind × CharRange) :=
  if t.isFunction then [t.asNode src .function]
  else match t.type with
  | "function_declaration" | "generator_function_declaration" => [t.asNode src .function]
  | "lexical_declaration" | "variable_declaration" =>
    (t.initialized.filter (!·.2.isFunction)).map fun _ => t.asNode src .varDecl
  | "if_statement" =>
    let arms := (t.field? "consequence").toList ++ (Plan.alternative? t).toList
    t.asNode src .condition :: arms.map (·.asNode src .branch)
  | "switch_statement" =>
    t.asNode src .switch :: (Plan.clauses t).map (·.asNode src .caseClause)
  | "while_statement" | "do_statement" | "for_statement" | "for_in_statement" =>
    [t.asNode src .loop]
  | "try_statement" =>
    let blocks := (t.field? "finalizer").toList.map fun f => (f.field? "body").getD f
    t.asNode src .tryStmt :: (t.field? "handler").toList.map (·.asNode src .catchClause) ++
      blocks.map (·.asNode src .finallyClause)
  | "return_statement" => [t.asNode src .returnStmt]
  | "throw_statement" => [t.asNode src .throwStmt]
  | "break_statement" => [t.asNode src .breakStmt]
  | "continue_statement" => [t.asNode src .continueStmt]
  | "expression_statement" => (t.operationKind? src).toList.map (t.asNode src)
  | _ => []

end Tree

namespace Plan
open Flowchart.Tree
variable {src : Source}

mutual

/-- The entries of a part without the ones of the trees that it visits. -/
def entries : Plan → List Entry
  | visit _ _ => []
  | node e parts => e :: entriesAll parts

def entriesAll : List Plan → List Entry
  | [] => []
  | p :: ps => p.entries ++ entriesAll ps

end

theorem entriesAll_append (ps qs : List Plan) :
    entriesAll (ps ++ qs) = entriesAll ps ++ entriesAll qs := by
  induction ps with
  | nil => rfl
  | cons p ps ih => rw [List.cons_append, entriesAll, entriesAll, ih, List.append_assoc]

theorem entriesAll_map {α : Type} (plan : α → Plan) (xs : List α) :
    entriesAll (xs.map plan) = xs.flatMap fun x => (plan x).entries := by
  induction xs with
  | nil => rfl
  | cons x xs ih => rw [List.map_cons, entriesAll, ih, List.flatMap_cons]

theorem entriesAll_visit (name : Option String) (ts : List Tree) :
    entriesAll (ts.map (visit name)) = [] := by
  rw [entriesAll_map, List.flatMap_eq_nil_iff]
  exact fun _ _ => rfl

/-- What the nodes of some parts stand for, without the nodes of what they visit. -/
def marks (ps : List Plan) : List (NodeKind × CharRange) :=
  (entriesAll ps).map fun e => (e.kind, e.range)

theorem marks_append (ps qs : List Plan) : marks (ps ++ qs) = marks ps ++ marks qs := by
  rw [marks, entriesAll_append, List.map_append]
  rfl

theorem marks_node (e : Entry) (parts : List Plan) :
    marks [node e parts] = (e.kind, e.range) :: marks parts := by
  rw [marks, entriesAll, entriesAll, entries, List.append_nil]
  rfl

theorem marks_visit (name : Option String) (ts : List Tree) : marks (ts.map (visit name)) = [] := by
  rw [marks, entriesAll_visit]
  rfl

theorem marks_visits (t : Option Tree) : marks (visits t) = [] :=
  marks_visit none t.toList

theorem marks_map {α : Type} (plan : α → Plan) (xs : List α) :
    marks (xs.map plan) = xs.flatMap fun x => marks [plan x] := by
  rw [marks, entriesAll_map, List.map_flatMap]
  simp only [marks, entriesAll, List.append_nil]

theorem marks_conditional (t : Tree) : marks [conditional src t] =
    t.asNode src .condition ::
      ((t.field? "consequence").toList ++ (alternative? t).toList).map (·.asNode src .branch) := by
  have harms (b : Branch) (ts : List Tree) :
      marks (ts.map (arm src b)) = ts.map (·.asNode src .branch) := by
    rw [marks_map, List.map_eq_flatMap]
    rfl
  rw [conditional, marks_node, marks_append, trueArm, falseArm, harms, harms, List.map_append]
  rfl

theorem marks_switch (t : Tree) : marks [switch src t] =
    t.asNode src .switch :: (clauses t).map (·.asNode src .caseClause) := by
  rw [switch, marks_node, marks_map, List.map_eq_flatMap]
  simp only [clause, marks_node, marks_visit]
  rfl

theorem marks_tryBlock (t : Tree) : marks [tryBlock src t] =
    t.asNode src .tryStmt :: ((t.field? "handler").toList.map (·.asNode src .catchClause) ++
      ((t.field? "finalizer").toList.map fun f => (f.field? "body").getD f).map
        (·.asNode src .finallyClause)) := by
  rw [tryBlock, marks_node, marks_append, marks_append, marks_visits, marks_map, marks_map,
    List.map_map, List.map_eq_flatMap, List.map_eq_flatMap]
  simp only [catchPlan, finallyPlan, marks_node, marks_visits]
  rfl

theorem marks_variablePlan (stmt : Tree) (x : Tree × Tree) :
    marks [variablePlan src stmt x.1 x.2] =
      ([x].filter (!·.2.isFunction)).map fun _ => stmt.asNode src .varDecl := by
  rw [variablePlan]
  split_ifs with hfn
  · rw [List.filter_cons_of_neg (by simpa using hfn)]
    rfl
  · rw [List.filter_cons_of_pos (by simpa using hfn), declared]
    split
    · rfl
    · rw [if_neg hfn]
      rfl

theorem marks_variables (t : Tree) :
    marks (t.initialized.map fun x => variablePlan src t x.1 x.2) =
      (t.initialized.filter (!·.2.isFunction)).map fun _ => t.asNode src .varDecl := by
  rw [marks_map]
  simp only [marks_variablePlan]
  rw [← List.map_flatMap, ← List.filter_flatMap, List.flatMap_singleton']

theorem marks_callPlan (stmt call : Tree) : marks [callPlan src stmt call] =
    [stmt.asNode src (if (Platform.callee? call).any isFunction then .function
      else if Platform.isPlatformCall src call then .platformCall else .genericCall)] := by
  unfold callPlan Platform.isPlatformCall
  cases hf : Platform.callee? call with
  | none => cases Platform.classify src call <;> rfl
  | some f =>
    cases hfn : f.isFunction with
    | true =>
      have hsome : (some f).filter isFunction = some f := by simp [hfn]
      simp only [hsome, immediate, marks_node, marks_visits, Option.any_some, hfn, if_pos]
      rfl
    | false =>
      have hnone : (some f).filter isFunction = none := by simp [hfn]
      simp only [hnone, Option.any_some, hfn]
      cases Platform.classify src call <;> rfl

theorem marks_assignment (stmt x : Tree) : marks [assignment src stmt x] =
    [stmt.asNode src (if ((x.field? "right").bind unwrap).any (Platform.isPlatformCall src)
      then .assignment else .genericAssignment)] := by
  unfold assignment
  cases (x.field? "right").bind unwrap with
  | none => rfl
  | some call =>
    cases hcall : Platform.isPlatformCall src call with
    | true =>
      have hsome : (some call).filter (Platform.isPlatformCall src) = some call := by simp [hcall]
      simp only [hsome, Option.any_some, hcall, if_pos]
      rfl
    | false =>
      have hnone : (some call).filter (Platform.isPlatformCall src) = none := by simp [hcall]
      simp only [hnone, Option.any_some, hcall]
      rfl

theorem marks_expression (t : Tree) :
    marks (expression src t) = (t.operationKind? src).toList.map (t.asNode src) := by
  unfold expression operationKind?
  cases t.firstStatement?.bind Tree.unwrap with
  | none => rfl
  | some x =>
    simp only [Option.bind_some]
    by_cases hcall : x.type = "call_expression"
    · simp only [if_pos hcall]
      rw [marks_callPlan]
      split_ifs <;> rfl
    · simp only [if_neg hcall]
      by_cases hassign :
          ["assignment_expression", "augmented_assignment_expression"].contains x.type
      · simp only [if_pos hassign]
        rw [marks_assignment]
        split_ifs <;> rfl
      · simp only [if_neg hassign]
        split_ifs <;> rfl

/-- A statement makes the nodes of its parts. -/
theorem marks_step (name : Option String) (t : Tree) : marks (step src name t) = t.made src := by
  cases hc : t.construct with
  | function =>
    have hstep : marks (step src name t) = [t.asNode src .function] := by
      rw [step, hc, ofTree, hc]
      simp only [function, marks_node, marks_visits]
      rfl
    rw [hstep, made]
    rcases construct_eq_function_iff.mp hc with hfn | hty
    · rw [if_pos hfn]
    · simp at hty
      rcases hty with hty | hty <;> simp [hty]
  | conditional =>
    have hty := construct_eq_conditional_iff.mp hc
    rw [step, hc, made, isFunction_eq_false (by simp [hc]), hty]
    exact marks_conditional t
  | switch =>
    have hty := construct_eq_switch_iff.mp hc
    rw [step, ofTree, hc, made, isFunction_eq_false (by simp [hc]), hty]
    exact marks_switch t
  | tryBlock =>
    have hty := construct_eq_tryBlock_iff.mp hc
    rw [step, ofTree, hc, made, isFunction_eq_false (by simp [hc]), hty]
    exact marks_tryBlock t
  | expression =>
    have hty := construct_eq_expression_iff.mp hc
    rw [step, ofTree, hc, made, isFunction_eq_false (by simp [hc]), hty]
    exact marks_expression t
  | declaration =>
    have hty := isDeclaration_iff.mpr hc
    simp [IsDeclaration] at hty
    rw [step, hc, made, isFunction_eq_false (by simp [hc])]
    rcases hty with hty | hty
    · rw [hty]
      exact marks_variables t
    · rw [hty]
      exact marks_variables t
  | block =>
    have hty := isBlock_iff.mpr hc
    simp [IsBlock] at hty
    rw [step, ofTree, hc, made, isFunction_eq_false (by simp [hc])]
    rcases hty with hty | hty
    · rw [hty]
      exact marks_visit ..
    · rw [hty]
      exact marks_visit ..
  | whileLoop | doLoop | forLoop | forInLoop =>
    have hty := (construct_eq_iff (by simp) (by simp)).mp hc
    simp [constructs] at hty
    rw [step, ofTree, hc, made, isFunction_eq_false (by simp [hc]), hty]
    simp only [whileLoop, forLoop, forInLoop, loop, marks_node, marks_visits]
    rfl
  | labeled =>
    have hty := (construct_eq_iff (by simp) (by simp)).mp hc
    simp [constructs] at hty
    rw [step, ofTree, hc, made, isFunction_eq_false (by simp [hc]), hty]
    exact marks_visits _
  | exit k | jump k =>
    have hty := (construct_eq_iff (by simp) (by simp)).mp hc
    simp [constructs] at hty
    rw [step, ofTree, hc, made, isFunction_eq_false (by simp [hc])]
    rcases hty with ⟨hty, rfl⟩ | ⟨hty, rfl⟩ <;> rw [hty] <;> rfl
  | silent =>
    -- A type that the table lists would not be silent.
    have hnot : t.type ∉ constructs.map (·.1) := by
      intro hmem
      obtain ⟨x, hx, hxt⟩ := List.mem_map.mp hmem
      have hsilent : x.2 = .silent := (construct_of_mem (hxt ▸ hx)).symm.trans hc
      have htable : ∀ y ∈ constructs, y.2 ≠ .silent := by decide
      exact htable x hx hsilent
    rw [step, ofTree, hc, made, isFunction_eq_false (by simp [hc])]
    simp only [Bool.false_eq_true, if_false]
    split
    case h_17 => rfl
    all_goals
      rename_i hty
      simp [constructs, hty] at hnot

end Plan
end Flowchart
