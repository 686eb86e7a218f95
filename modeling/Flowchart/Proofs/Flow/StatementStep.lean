import Flowchart.Proofs.Flow.StatementPosition

/-! What the extraction of a statement visits next are the places that the statement holds. -/
namespace Flowchart

namespace Tree

/-- The declarators of a declaration that have a value, with it. -/
def initialized (t : Tree) : List (Tree × Tree) :=
  (t.namedChildren.filter (·.type = "variable_declarator")).filterMap fun d =>
    ((d.field? "value").bind unwrap).map (d, ·)

end Tree

namespace Plan
open Flowchart.Tree

theorem resolveAll_map {α : Type} (f : Option String → Tree → List FlowTree) (plan : α → Plan)
    (xs : List α) : resolveAll f (xs.map plan) = xs.flatMap fun x => (plan x).resolve f := by
  induction xs with
  | nil => rfl
  | cons x xs ih => rw [List.map_cons, resolveAll, ih, List.flatMap_cons]

/-! What a statement holds is visited on its own: the function values of a declaration, and the
conditionals of a ladder. -/

def variableName (src : Source) (declarator : Tree) : String :=
  ((declarator.field? "name").filter (·.type = "identifier")).elim
    Source.placeholder (src.textOf ·.span)

def variablePlan (src : Source) (stmt declarator value : Tree) : Plan :=
  if value.isFunction then visit (variableName src declarator) value
  else declared src stmt declarator value

def step (src : Source) (name : Option String) (t : Tree) : List Plan :=
  match t.construct with
  | .declaration => t.initialized.map fun x => variablePlan src t x.1 x.2
  | .conditional => [conditional src t]
  | _ => ofTree src name t

section
variable {src : Source}

theorem declaration_eq (stmt : Tree) :
    declaration src stmt = stmt.initialized.map fun x => declared src stmt x.1 x.2 := by
  rw [initialized, List.map_filterMap]
  simp only [Option.map_map]
  rfl

theorem classOf_eq_none {t : Tree} (h : t.isFunction) : Platform.classOf src t = none := by
  rw [Platform.classOf, if_neg]
  intro hty
  simp [isFunction, hty] at h

theorem resolve_declared (stmt declarator value : Tree) :
    (declared src stmt declarator value).resolve (fun name u => u.outline src name) =
      (variablePlan src stmt declarator value).resolve fun name u => u.outline src name := by
  rw [variablePlan]
  split_ifs with hfn
  · rw [resolve, outline_eq, ofTree, construct_of_isFunction hfn, resolveAll, resolveAll,
      List.append_nil, declared, classOf_eq_none hfn]
    simp only [if_pos hfn]
    rfl
  · rfl

theorem outline_step (name : Option String) (t : Tree) :
    t.outline src name = resolveAll (fun name u => u.outline src name) (step src name t) := by
  rw [outline_eq]
  unfold step
  split
  · rename_i hc
    rw [ofTree, hc]
    simp only [declaration_eq, resolveAll_map, resolve_declared]
  · rename_i hc
    rw [ofTree, hc]
    simp only [resolveAll, resolve_ladder (Nat.le_refl _)]
  · rfl

end
end Plan

namespace Occurrence
open Flowchart.Tree Plan

theorem map_alternative? (p : Occurrence) : p.alternative?.map tree = Plan.alternative? p.tree := by
  rw [alternative?, Plan.alternative?, ← map_field?, Option.map_bind, Option.bind_map]
  congr 1
  funext e
  simp only [Function.comp_apply]
  split_ifs
  · exact e.map_firstStatement?
  · rfl

theorem map_clauses (p : Occurrence) : p.clauses.map tree = Plan.clauses p.tree := by
  rw [clauses, Plan.clauses, ← map_field?]
  cases p.field? "body" with
  | none => rfl
  | some b =>
    simp only [Option.map_some, Option.elim_some, Option.toList_some, List.flatMap_singleton]
    rw [← map_statements, List.filter_map]
    rfl

theorem map_clauseStatements (c : Occurrence) :
    c.clauseStatements.map tree = Plan.clauseStatements c.tree := by
  rw [clauseStatements, Plan.clauseStatements, ← map_fields, ← map_statements]
  cases c.fields "body" with
  | nil =>
    simp only [List.map_nil]
    rw [List.filter_map]
    rfl
  | cons s ss => rfl

theorem map_handlerBody? (p : Occurrence) :
    ((p.field? "handler").bind (·.field? "body")).map tree =
      (p.tree.field? "handler").bind (·.field? "body") := by
  rw [← map_field?, Option.map_bind, Option.bind_map]
  congr 1
  funext h
  exact h.map_field? "body"

theorem map_finalizerBlock? (p : Occurrence) : p.finalizerBlock?.map tree =
    (p.tree.field? "finalizer").map fun f => (f.field? "body").getD f := by
  rw [finalizerBlock?, ← map_field?, Option.map_map, Option.map_map]
  congr 1
  funext f
  simp only [Function.comp_apply, ← map_field?]
  cases f.field? "body" <;> rfl

theorem map_bind_unwrap (o : Option Occurrence) :
    (o.bind unwrap).map tree = (o.map tree).bind Tree.unwrap := by
  rw [Option.map_bind, Option.bind_map]
  congr 1
  funext q
  exact q.map_unwrap

theorem map_values (p : Occurrence) : p.values.map tree = p.tree.initialized.map (·.2) := by
  have hval (d : Occurrence) : ((d.field? "value").bind unwrap).map tree =
      (d.tree.field? "value").bind Tree.unwrap := by
    rw [map_bind_unwrap, map_field?]
  have hsnd (d : Tree) : (((d.field? "value").bind Tree.unwrap).map (d, ·)).map (·.2) =
      (d.field? "value").bind Tree.unwrap := by
    rw [Option.map_map]
    exact Option.map_id'
  simp only [values, initialized, List.map_filterMap, hval, hsnd, namedChildren, ← map_children,
    List.filter_map, List.filterMap_map, List.filter_filter, Function.comp_def, Bool.and_comm]

theorem map_callee? (p : Occurrence) : p.callee?.map tree =
    ((p.tree.firstStatement?.bind Tree.unwrap).filter (·.type = "call_expression")).bind
      Platform.callee? := by
  have hexpr : (p.firstStatement?.bind unwrap).map tree =
      p.tree.firstStatement?.bind Tree.unwrap := by
    rw [map_bind_unwrap, map_firstStatement?]
  rw [callee?, ← hexpr, Option.filter_map, Option.map_bind, Option.bind_map]
  congr 1
  funext x
  simp only [Function.comp_apply, map_bind_unwrap, map_field?]
  rfl

theorem map_calledBlock? (p : Occurrence) : p.calledBlock?.map tree =
    ((((p.tree.firstStatement?.bind Tree.unwrap).filter (·.type = "call_expression")).bind
      Platform.callee?).filter (·.isFunction)).bind fun f =>
        (f.field? "body").filter (·.type = "statement_block") := by
  rw [calledBlock?, ← map_callee?, Option.filter_map, Option.map_bind, Option.bind_map]
  congr 1
  funext f
  simp only [Function.comp_apply, ← map_field?, Option.filter_map]
  rfl

end Occurrence

namespace Plan
open Flowchart.Tree
variable {src : Source}

/-- The trees that some parts visit. -/
def trees (ps : List Plan) : List Tree :=
  (targetsAll ps).map (·.2)

theorem trees_append (ps qs : List Plan) : trees (ps ++ qs) = trees ps ++ trees qs := by
  rw [trees, targetsAll_append, List.map_append]
  rfl

theorem trees_node (e : Entry) (parts : List Plan) : trees [node e parts] = trees parts := by
  rw [trees, targets_node]
  rfl

theorem trees_visit (name : Option String) (ts : List Tree) :
    trees (ts.map (visit name)) = ts := by
  rw [trees, targetsAll_visit, List.map_map]
  exact List.map_id ts

theorem trees_visits (t : Option Tree) : trees (visits t) = t.toList :=
  trees_visit none t.toList

theorem trees_map {α : Type} (plan : α → Plan) (xs : List α) :
    trees (xs.map plan) = xs.flatMap fun x => trees [plan x] := by
  rw [trees, targetsAll_map, List.map_flatMap]
  simp only [trees, targetsAll, List.append_nil]

theorem trees_conditional (t : Tree) : trees [conditional src t] =
    (t.field? "consequence").toList ++ (alternative? t).toList := by
  have harms (b : Branch) (ts : List Tree) : trees (ts.map (arm src b)) = ts := by
    rw [trees_map]
    exact List.flatMap_singleton' ts
  rw [conditional, trees_node, trees_append, trueArm, falseArm, harms, harms]

theorem trees_switch (t : Tree) :
    trees [switch src t] = (clauses t).flatMap clauseStatements := by
  rw [switch, trees_node, trees_map]
  simp only [clause, trees_node, trees_visit]

theorem trees_tryBlock (t : Tree) : trees [tryBlock src t] =
    (t.field? "body").toList ++ ((t.field? "handler").bind (·.field? "body")).toList ++
      ((t.field? "finalizer").map fun f => (f.field? "body").getD f).toList := by
  have hhandler : trees ((t.field? "handler").toList.map (catchPlan src)) =
      ((t.field? "handler").bind (·.field? "body")).toList := by
    rw [trees_map]
    cases t.field? "handler" with
    | none => rfl
    | some h => simp only [catchPlan, trees_node, trees_visits, Option.toList_some,
        List.flatMap_singleton, Option.bind_some]
  have hfinalizer : trees ((t.field? "finalizer").toList.map (finallyPlan src)) =
      ((t.field? "finalizer").map fun f => (f.field? "body").getD f).toList := by
    rw [trees_map]
    cases t.field? "finalizer" <;> rfl
  rw [tryBlock, trees_node, trees_append, trees_append, trees_visits, hhandler, hfinalizer]

theorem trees_variablePlan (stmt declarator value : Tree) :
    trees [variablePlan src stmt declarator value] = [value].filter (·.isFunction) := by
  rw [variablePlan]
  split_ifs with hfn
  · rw [List.filter_cons_of_pos hfn]
    rfl
  · rw [List.filter_cons_of_neg hfn, declared]
    split
    · rfl
    · rw [if_neg hfn]
      rfl

theorem trees_variables (t : Tree) :
    trees (t.initialized.map fun x => variablePlan src t x.1 x.2) =
      (t.initialized.map (·.2)).filter (·.isFunction) := by
  rw [trees_map]
  simp only [trees_variablePlan]
  rw [← List.filter_flatMap, ← List.map_eq_flatMap]

theorem trees_callPlan (stmt call : Tree) : trees [callPlan src stmt call] =
    (((Platform.callee? call).filter (·.isFunction)).bind fun f =>
      (f.field? "body").filter (·.type = "statement_block")).toList := by
  unfold callPlan
  cases (Platform.callee? call).filter (·.isFunction) with
  | none => cases Platform.classify src call <;> rfl
  | some f =>
    simp only [immediate, trees_node, trees_visits]
    rfl

theorem trees_expression (t : Tree) : trees (expression src t) =
    (((((t.firstStatement?.bind Tree.unwrap).filter (·.type = "call_expression")).bind
      Platform.callee?).filter (·.isFunction)).bind fun f =>
        (f.field? "body").filter (·.type = "statement_block")).toList := by
  unfold expression
  cases t.firstStatement?.bind Tree.unwrap with
  | none => rfl
  | some x =>
    by_cases hcall : x.type = "call_expression"
    · have hx : (some x).filter (·.type = "call_expression") = some x := by simp [hcall]
      simp only [hx, Option.bind_some, if_pos hcall]
      exact trees_callPlan t x
    · have hx : (some x).filter (·.type = "call_expression") = none := by simp [hcall]
      simp only [hx, if_neg hcall]
      split_ifs
      · unfold assignment
        split <;> rfl
      · rfl
      · rfl

/-- The visits of a statement go to what it holds. -/
theorem trees_step (name : Option String) (p : Occurrence) :
    trees (step src name p.tree) = p.held.map Occurrence.tree := by
  unfold step Occurrence.held
  cases hc : p.tree.construct with
  | block =>
    simp only [ofTree, hc]
    rw [trees_visit, Occurrence.map_statements]
  | declaration =>
    simp only
    rw [trees_variables, ← Occurrence.map_values, List.filter_map]
    rfl
  | conditional =>
    simp only
    rw [trees_conditional, List.map_append, ← Occurrence.map_alternative?, ← Occurrence.map_field?,
      Option.toList_map, Option.toList_map]
  | switch =>
    simp only [ofTree, hc]
    rw [trees_switch, ← Occurrence.map_clauses, List.flatMap_map, List.map_flatMap]
    simp only [Occurrence.map_clauseStatements]
  | tryBlock =>
    simp only [ofTree, hc]
    rw [trees_tryBlock, ← Occurrence.map_finalizerBlock?, ← Occurrence.map_handlerBody?,
      ← Occurrence.map_field?, List.map_append, List.map_append, Option.toList_map,
      Option.toList_map, Option.toList_map]
  | expression =>
    simp only [ofTree, hc]
    rw [trees_expression, ← Occurrence.map_calledBlock?, Option.toList_map]
  | function | whileLoop | doLoop | forLoop | forInLoop | labeled =>
    have hbody : p.tree.field? "body" = (p.field? "body").map Occurrence.tree :=
      (p.map_field? _).symm
    simp only [ofTree, hc, function, whileLoop, forLoop, forInLoop, loop, trees_node, trees_visits,
      hbody, Option.toList_map]
  | exit k | jump k | silent =>
    simp only [ofTree, hc]
    rfl

end Plan
end Flowchart
