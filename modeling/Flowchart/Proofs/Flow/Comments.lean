import Flowchart.Proofs.Flow.StatementNodes
import Flowchart.Proofs.Script.Comments

/-! Comments are invisible: without them a statement makes the same parts and visits the same trees,
and so the flow nodes are the same. -/
namespace Flowchart

namespace Plan
open Flowchart.Tree

mutual

/-- The part with another tree at each visit. -/
def mapTrees (f : Tree → Tree) : Plan → Plan
  | visit name t => visit name (f t)
  | node e parts => node e (mapTreesAll f parts)

def mapTreesAll (f : Tree → Tree) : List Plan → List Plan
  | [] => []
  | p :: ps => p.mapTrees f :: mapTreesAll f ps

end

theorem mapTreesAll_eq_map (f : Tree → Tree) (ps : List Plan) :
    mapTreesAll f ps = ps.map (mapTrees f) := by
  induction ps with
  | nil => rfl
  | cons p ps ih => rw [mapTreesAll, ih, List.map_cons]

mutual

theorem resolve_mapTrees (f : Tree → Tree) (visited : Option String → Tree → List FlowTree) :
    (p : Plan) → (p.mapTrees f).resolve visited = p.resolve fun name t => visited name (f t)
  | visit name t => rfl
  | node e parts => by rw [mapTrees, resolve, resolve, resolveAll_mapTrees f visited parts]

theorem resolveAll_mapTrees (f : Tree → Tree) (visited : Option String → Tree → List FlowTree) :
    (ps : List Plan) → resolveAll visited (mapTreesAll f ps) =
      resolveAll (fun name t => visited name (f t)) ps
  | [] => rfl
  | p :: ps => by
    rw [mapTreesAll, resolveAll, resolveAll, resolve_mapTrees f visited p,
      resolveAll_mapTrees f visited ps]

end

/-- A part for each tree of a list or an option is mapped tree by tree. -/
theorem map_mapTrees {α : Type} {f : Tree → Tree} {plan plan' : α → Plan} {xs : List α}
    (h : ∀ x ∈ xs, plan' x = (plan x).mapTrees f) :
    xs.map plan' = (xs.map plan).map (mapTrees f) := by
  rw [List.map_map]
  exact List.map_congr_left h

theorem node_mapTrees {f : Tree → Tree} {e e' : Entry} {parts parts' : List Plan} (he : e' = e)
    (hparts : parts' = parts.map (mapTrees f)) :
    node e' parts' = (node e parts).mapTrees f := by
  rw [he, hparts, mapTrees, mapTreesAll_eq_map]

variable (src : Source)

theorem visits_uncommented (t : Option Tree) :
    visits (t.map uncommented) = (visits t).map (mapTrees uncommented) := by
  cases t <;> rfl

theorem visit_map_uncommented (ts : List Tree) :
    (ts.map uncommented).map (visit none) =
      (ts.map (visit none)).map (mapTrees uncommented) := by
  rw [List.map_map]
  exact map_mapTrees fun _ _ => rfl

theorem body_uncommented (t : Tree) : visits (t.uncommented.field? "body") =
    (visits (t.field? "body")).map (mapTrees uncommented) := by
  rw [field?_uncommented, visits_uncommented]

@[simp] theorem excerptOf_uncommented (t : Option Tree) (limit : Int) :
    src.excerptOf (t.map uncommented) limit = src.excerptOf t limit := by
  simp [Source.excerptOf, Option.elim_map, Function.comp_def]

@[simp] theorem headSpan_uncommented (s : Span) (body : Option Tree) :
    headSpan s (body.map uncommented) = headSpan s body := by
  simp [headSpan, Option.elim_map, Function.comp_def]

@[simp] theorem signature_uncommented (s : Span) (fn : Tree) :
    signature src s fn.uncommented = signature src s fn := by
  simp [signature]

@[simp] theorem functionLabel_uncommented (fn : Tree) (default : String) :
    functionLabel src fn.uncommented default = functionLabel src fn default := by
  simp [functionLabel, Option.elim_map, Function.comp_def]

theorem function_uncommented (name : Option String) (fn : Tree) :
    function src name fn.uncommented = (function src name fn).mapTrees uncommented :=
  node_mapTrees (by simp) (body_uncommented fn)

theorem filter_type_uncommented (t : Option Tree) (type : String) :
    (t.map uncommented).filter (·.type = type) = (t.filter (·.type = type)).map uncommented := by
  simp [Option.filter_map, Function.comp_def]

theorem immediate_uncommented (stmt fn : Tree) :
    immediate src stmt.uncommented fn.uncommented =
      (immediate src stmt fn).mapTrees uncommented := by
  refine node_mapTrees (by simp) ?_
  rw [field?_uncommented, filter_type_uncommented, visits_uncommented]

/-! Declarations. -/

theorem initialized_uncommented (t : Tree) : t.uncommented.initialized =
    t.initialized.map fun x => (x.1.uncommented, x.2.uncommented) := by
  have hvalue (d : Tree) : ((d.uncommented.field? "value").bind unwrap).map (d.uncommented, ·) =
      (((d.field? "value").bind unwrap).map (d, ·)).map
        fun x => (x.1.uncommented, x.2.uncommented) := by
    rw [field?_uncommented, Platform.bind_unwrap_uncommented, Option.map_map, Option.map_map]
    rfl
  rw [initialized, initialized, namedChildren_filter_uncommented _ _ (by decide),
    List.filterMap_map, List.map_filterMap]
  exact congrArg (List.filterMap · _) (funext hvalue)

theorem variableName_uncommented (declarator : Tree) :
    variableName src declarator.uncommented = variableName src declarator := by
  rw [variableName, variableName, field?_uncommented, filter_type_uncommented]
  simp [Option.elim_map, Function.comp_def]

/-- The word of a declaration is its first child, which is kept even if it is a comment. -/
theorem declared_uncommented {stmt : Tree} (h : stmt.mark.readsFirst) (declarator value : Tree)
    (hfn : value.isFunction = false) :
    declared src stmt.uncommented declarator.uncommented value.uncommented =
      (declared src stmt declarator value).mapTrees uncommented := by
  unfold declared
  rw [Platform.classOf_uncommented]
  cases Platform.classOf src value with
  | some cls =>
    refine node_mapTrees ?_ rfl
    simp [Option.elim_map, Function.comp_def]
  | none =>
    have hname := variableName_uncommented src declarator
    rw [variableName, variableName] at hname
    simp only [isFunction_uncommented, hfn, Bool.false_eq_true, if_false, hname,
      head?_children_uncommented h, Option.elim_map, Function.comp_def, type_uncommented,
      span_uncommented]
    exact node_mapTrees rfl rfl

theorem variablePlan_uncommented {stmt : Tree} (h : stmt.mark.readsFirst)
    (declarator value : Tree) :
    variablePlan src stmt.uncommented declarator.uncommented value.uncommented =
      (variablePlan src stmt declarator value).mapTrees uncommented := by
  rw [variablePlan, variablePlan, isFunction_uncommented, variableName_uncommented]
  split_ifs with hfn
  · rfl
  · exact declared_uncommented src h declarator value (by simpa using hfn)

/-! Conditionals. -/

@[simp] theorem condition?_uncommented (t : Tree) :
    condition? t.uncommented = (condition? t).map uncommented := by
  rw [condition?, condition?, field?_uncommented, Platform.bind_unwrap_uncommented]

theorem alternative?_uncommented (t : Tree) :
    alternative? t.uncommented = (alternative? t).map uncommented := by
  rw [alternative?, alternative?, field?_uncommented]
  cases t.field? "alternative" with
  | none => rfl
  | some a =>
    simp only [Option.map_some, Option.bind_some, type_uncommented, firstStatement?_uncommented]
    split_ifs <;> rfl

theorem arm_uncommented (branch : Branch) (t : Tree) :
    arm src branch t.uncommented = (arm src branch t).mapTrees uncommented := by
  refine node_mapTrees ?_ rfl
  simp [branchEntry]

theorem arms_uncommented (branch : Branch) (t : Option Tree) :
    (t.map uncommented).toList.map (arm src branch) =
      (t.toList.map (arm src branch)).map (mapTrees uncommented) := by
  rw [Option.toList_map, List.map_map]
  exact map_mapTrees fun a _ => arm_uncommented src branch a

theorem conditional_uncommented (t : Tree) :
    conditional src t.uncommented = (conditional src t).mapTrees uncommented := by
  refine node_mapTrees ?_ ?_
  · simp [conditionEntry, labeledEntry]
  · rw [trueArm, falseArm, trueArm, falseArm, field?_uncommented, alternative?_uncommented,
      arms_uncommented, arms_uncommented, List.map_append]

theorem clauseTest?_uncommented (c : Tree) :
    clauseTest? c.uncommented = (clauseTest? c).map uncommented := by
  rw [clauseTest?, clauseTest?, type_uncommented, field?_uncommented]
  split_ifs <;> rfl

theorem clauseStatements_uncommented (c : Tree) :
    clauseStatements c.uncommented = (clauseStatements c).map uncommented := by
  rw [clauseStatements, clauseStatements, fields_uncommented]
  cases c.fields "body" with
  | nil =>
    simp [clauseTest?_uncommented, List.filter_map, Function.comp_def]
  | cons s ss => rfl

theorem clause_uncommented (c : Tree) :
    clause src c.uncommented = (clause src c).mapTrees uncommented := by
  refine node_mapTrees ?_ ?_
  · simp [clauseTest?_uncommented, Option.elim_map, Function.comp_def]
  · rw [clauseStatements_uncommented, visit_map_uncommented]

theorem clauses_uncommented (t : Tree) :
    clauses t.uncommented = (clauses t).map uncommented := by
  rw [clauses, clauses, field?_uncommented]
  cases t.field? "body" with
  | none => rfl
  | some b => simp [List.filter_map, Function.comp_def]

theorem switch_uncommented (t : Tree) :
    switch src t.uncommented = (switch src t).mapTrees uncommented := by
  refine node_mapTrees ?_ ?_
  · simp only [labeledEntry, field?_uncommented, Platform.bind_unwrap_uncommented,
      excerptOf_uncommented, span_uncommented]
  · rw [clauses_uncommented, List.map_map]
    exact map_mapTrees fun c _ => clause_uncommented src c

/-! Loops. -/

theorem loop_uncommented (word label : String) (t : Tree) :
    loop src word label t.uncommented = (loop src word label t).mapTrees uncommented :=
  node_mapTrees (by simp [labeledEntry]) (body_uncommented t)

theorem whileLoop_uncommented (word : String) (t : Tree) :
    whileLoop src word t.uncommented = (whileLoop src word t).mapTrees uncommented := by
  rw [whileLoop, whileLoop, condition?_uncommented, excerptOf_uncommented, loop_uncommented]

theorem forLoop_uncommented (t : Tree) :
    forLoop src t.uncommented = (forLoop src t).mapTrees uncommented := by
  rw [forLoop, forLoop, field?_uncommented, headSpan_uncommented, span_uncommented,
    loop_uncommented]

theorem forInLoop_uncommented (t : Tree) :
    forInLoop src t.uncommented = (forInLoop src t).mapTrees uncommented := by
  rw [forInLoop, forInLoop, operator?_uncommented _ _ (by decide), field?_uncommented,
    excerptOf_uncommented, loop_uncommented]

/-! Exceptions and jumps. -/

theorem catchPlan_uncommented (handler : Tree) :
    catchPlan src handler.uncommented = (catchPlan src handler).mapTrees uncommented := by
  refine node_mapTrees ?_ (body_uncommented handler)
  simp [filter_type_uncommented, Option.elim_map, Function.comp_def]

theorem finallyPlan_uncommented (finalizer : Tree) :
    finallyPlan src finalizer.uncommented = (finallyPlan src finalizer).mapTrees uncommented := by
  have hblock : (finalizer.uncommented.field? "body").getD finalizer.uncommented =
      ((finalizer.field? "body").getD finalizer).uncommented := by
    rw [field?_uncommented]
    cases finalizer.field? "body" <;> rfl
  unfold finallyPlan
  rw [hblock]
  exact node_mapTrees (by simp) rfl

theorem tryBlock_uncommented (t : Tree) :
    tryBlock src t.uncommented = (tryBlock src t).mapTrees uncommented := by
  have hcatch : (t.uncommented.field? "handler").toList.map (catchPlan src) =
      ((t.field? "handler").toList.map (catchPlan src)).map (mapTrees uncommented) := by
    rw [field?_uncommented, Option.toList_map, List.map_map]
    exact map_mapTrees fun h _ => catchPlan_uncommented src h
  have hfinally : (t.uncommented.field? "finalizer").toList.map (finallyPlan src) =
      ((t.field? "finalizer").toList.map (finallyPlan src)).map (mapTrees uncommented) := by
    rw [field?_uncommented, Option.toList_map, List.map_map]
    exact map_mapTrees fun f _ => finallyPlan_uncommented src f
  refine node_mapTrees (by simp) ?_
  rw [body_uncommented, hcatch, hfinally, List.map_append, List.map_append]

theorem exit_uncommented (kind : NodeKind) (t : Tree) :
    exit src kind t.uncommented = (exit src kind t).mapTrees uncommented :=
  node_mapTrees (by simp [Function.comp_def]) rfl

theorem jump_uncommented (kind : NodeKind) (t : Tree) :
    jump src kind t.uncommented = (jump src kind t).mapTrees uncommented :=
  node_mapTrees (by simp [Function.comp_def]) rfl

/-! Expression statements. -/

theorem callPlan_uncommented (stmt call : Tree) :
    callPlan src stmt.uncommented call.uncommented =
      (callPlan src stmt call).mapTrees uncommented := by
  have hcallee : (Platform.callee? call.uncommented).filter isFunction =
      ((Platform.callee? call).filter isFunction).map uncommented := by
    simp [Option.filter_map, Function.comp_def]
  unfold callPlan
  rw [hcallee]
  cases (Platform.callee? call).filter isFunction with
  | some fn => exact immediate_uncommented src stmt fn
  | none =>
    simp only [Option.map_none, Platform.classify_uncommented]
    cases Platform.classify src call with
    | some info => exact node_mapTrees (by simp [detailed, operation]) rfl
    | none => exact node_mapTrees (by simp [detailed, operation]) rfl

theorem assignment_uncommented (stmt expr : Tree) :
    assignment src stmt.uncommented expr.uncommented =
      (assignment src stmt expr).mapTrees uncommented := by
  have hright : ((expr.uncommented.field? "right").bind unwrap).filter
      (Platform.isPlatformCall src) =
      (((expr.field? "right").bind unwrap).filter (Platform.isPlatformCall src)).map
        uncommented := by
    rw [field?_uncommented, Platform.bind_unwrap_uncommented, Option.filter_map]
    simp only [Function.comp_def, Platform.isPlatformCall_uncommented]
  unfold assignment
  rw [hright]
  cases ((expr.field? "right").bind unwrap).filter (Platform.isPlatformCall src) <;>
    exact node_mapTrees (by simp [detailed, operation, Option.elim_map, Function.comp_def]) rfl

/-- The first child of an update tells on which side the operator stands. -/
theorem update_uncommented {expr : Tree} (h : expr.mark.readsFirst) (stmt : Tree) :
    update src stmt.uncommented expr.uncommented = (update src stmt expr).mapTrees uncommented := by
  unfold update
  simp only [field?_uncommented, filter_type_uncommented, operator?_uncommented expr
    ["++", "--"] (by decide), head?_children_uncommented h, excerptOf_uncommented]
  cases (expr.field? "argument").filter (·.type = "identifier") <;>
    cases expr.field? "operator" <;>
      exact node_mapTrees (by simp [operation, Option.any_map]) rfl

theorem expression_uncommented (stmt : Tree) :
    expression src stmt.uncommented = (expression src stmt).map (mapTrees uncommented) := by
  unfold expression
  rw [firstStatement?_uncommented, Platform.bind_unwrap_uncommented]
  cases stmt.firstStatement?.bind unwrap with
  | none => rfl
  | some expr =>
    simp only [Option.map_some, type_uncommented]
    by_cases hcall : expr.type = "call_expression"
    · rw [if_pos hcall, if_pos hcall, callPlan_uncommented]
      rfl
    by_cases hassign :
        ["assignment_expression", "augmented_assignment_expression"].contains expr.type
    · rw [if_neg hcall, if_neg hcall, if_pos hassign, if_pos hassign, assignment_uncommented]
      rfl
    by_cases hupdate : expr.type = "update_expression"
    · have hfirst : expr.mark.readsFirst := by
        have hmark : expr.mark.type = "update_expression" := hupdate
        simp [Mark.readsFirst, hmark]
      rw [if_neg hcall, if_neg hcall, if_neg hassign, if_neg hassign, if_pos hupdate,
        if_pos hupdate, update_uncommented src hfirst]
      rfl
    · rw [if_neg hcall, if_neg hcall, if_neg hassign, if_neg hassign, if_neg hupdate,
        if_neg hupdate]
      rfl

/-! Statements. -/

@[simp] theorem construct_uncommented (t : Tree) : t.uncommented.construct = t.construct := by
  rw [construct, construct, isFunction_uncommented, type_uncommented]

/-- Without its comments a statement makes the same parts and visits the same trees, without their
comments. -/
theorem step_uncommented (name : Option String) (t : Tree) :
    step src name t.uncommented = (step src name t).map (mapTrees uncommented) := by
  unfold step
  rw [construct_uncommented]
  cases hc : t.construct with
  | declaration =>
    have hfirst : t.mark.readsFirst := by
      have htype := isDeclaration_iff.mpr hc
      simp only [IsDeclaration, type, List.mem_cons, List.not_mem_nil, or_false] at htype
      rcases htype with htype | htype <;> simp [Mark.readsFirst, htype]
    simp only [initialized_uncommented]
    rw [List.map_map]
    exact map_mapTrees fun (x : Tree × Tree) _ => variablePlan_uncommented src hfirst x.1 x.2
  | conditional => simp only [conditional_uncommented, List.map_cons, List.map_nil]
  | function | switch | whileLoop | doLoop | forLoop | forInLoop | tryBlock | exit _ | jump _ =>
    simp only [ofTree, construct_uncommented, hc, function_uncommented, switch_uncommented,
      whileLoop_uncommented, forLoop_uncommented, forInLoop_uncommented, tryBlock_uncommented,
      exit_uncommented, jump_uncommented, List.map_cons, List.map_nil]
  | block =>
    simp only [ofTree, construct_uncommented, hc, statements_uncommented, visit_map_uncommented]
  | labeled => simp only [ofTree, construct_uncommented, hc, body_uncommented]
  | expression => simp only [ofTree, construct_uncommented, hc, expression_uncommented]
  | silent => simp only [ofTree, construct_uncommented, hc, List.map_nil]

end Plan

open Flowchart.Tree

theorem outline_uncommented (src : Source) (name : Option String) (t : Tree) :
    t.uncommented.outline src name = t.outline src name := by
  induction hn : t.size using Nat.strongRecOn generalizing name t with
  | ind n ih =>
    subst hn
    rw [Plan.outline_step, Plan.outline_step, Plan.step_uncommented, ← Plan.mapTreesAll_eq_map,
      Plan.resolveAll_mapTrees]
    exact Plan.resolveAll_step_congr src name fun name c hc => ih c.size hc name c rfl

theorem extract_uncommented (src : Source) (t : Tree) :
    extract src t.uncommented = extract src t := by
  have houtline := outline_uncommented src none t
  simp only [extract, Builder.walk, houtline]

/-- Comments are invisible: whichever of them are deleted, with all below them, the flow nodes stay
the same, unless a comment has a role in its parent or is a first child that its parent tells
something by. -/
theorem extract_without (src : Source) {t : Tree} {drop : List Nat → Bool}
    (h : OnlyRemarks drop t) : extract src (t.without drop) = extract src t := by
  rw [← extract_uncommented, uncommented_without t drop h, extract_uncommented]

/-- The tree of an update, with a comment in front of it and one inside it. -/
def commentedUpdate : Tree :=
  let leaf (type : String) (named : Bool) (start stop : Int) (field : Option String) : Tree :=
    .node ⟨type, named, false, false, ⟨start, stop⟩, field⟩ []
  .node ⟨"program", true, false, false, ⟨0, 13⟩, none⟩ [
    leaf "comment" true 0 5 none,
    .node ⟨"expression_statement", true, false, false, ⟨5, 13⟩, none⟩ [
      .node ⟨"update_expression", true, false, false, ⟨5, 13⟩, none⟩ [
        leaf "identifier" true 5 6 (some "argument"),
        leaf "comment" true 6 11 none,
        leaf "++" false 11 13 (some "operator")]]]

theorem extract_without_commentedUpdate :
    let src := Source.ofString "/*a*/i/*b*/++"
    let drop (path : List Nat) := path = [0] || path = [1, 0, 1]
    OnlyRemarks drop commentedUpdate ∧ commentedUpdate.size = 7 ∧
      (commentedUpdate.without drop).size = 5 ∧
      (extract src commentedUpdate).map (·.label) = ["i++"] ∧
      extract src (commentedUpdate.without drop) = extract src commentedUpdate := by
  intro src drop
  have honly : OnlyRemarks drop commentedUpdate := by
    intro path i u c hu hc hdrop
    simp only [drop, Bool.or_eq_true, decide_eq_true_eq] at hdrop
    rcases hdrop with hpath | hpath
    · obtain ⟨rfl, rfl⟩ := List.append_singleton_inj.mp
        (show path ++ [i] = [] ++ [0] from hpath)
      cases hu
      cases hc
      exact ⟨rfl, by decide⟩
    · obtain ⟨rfl, rfl⟩ := List.append_singleton_inj.mp
        (show path ++ [i] = [1, 0] ++ [1] from hpath)
      cases hu
      cases hc
      exact ⟨rfl, by decide⟩
  exact ⟨honly, rfl, rfl, by decide +kernel, extract_without src honly⟩

end Flowchart
