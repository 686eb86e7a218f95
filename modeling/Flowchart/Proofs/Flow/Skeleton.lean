import Flowchart.Proofs.Flow.Construct
import Flowchart.Proofs.Flow.OutlineShape

/-! What the tree of a script decides about its flow nodes, whatever the text is: everything but
their labels, their places and whether an operation is one of the platform. -/
namespace Flowchart

namespace NodeKind

/-- The kind as far as the tree decides it. Whether a call or the right side of an assignment uses
the platform stands in the text. -/
def syntactic : NodeKind → NodeKind
  | platformCall => genericCall
  | assignment => genericAssignment
  | k => k

/-- The kinds that the text tells apart. -/
def isOperation : NodeKind → Bool
  | platformCall | genericCall | assignment | genericAssignment => true
  | _ => false

theorem syntactic_eq_iff {k : NodeKind} (hk : k.isOperation = false) (kind : NodeKind) :
    kind.syntactic = k ↔ kind = k := by
  cases kind with
  | platformCall => constructor <;> rintro rfl <;> cases hk
  | assignment => constructor <;> rintro rfl <;> cases hk
  | _ => rfl

theorem isTerminal_syntactic (kind : NodeKind) : kind.syntactic.isTerminal = kind.isTerminal := by
  cases kind <;> rfl

end NodeKind

namespace Entry

/-- An entry that tells its kind and its branch only. -/
def bare (kind : NodeKind) (branch : Option Branch) : Entry where
  kind := kind
  label := ""
  range := ⟨0, 0⟩
  loc := ⟨⟨0, 0⟩, ⟨0, 0⟩⟩
  branch := branch

/-- The entry without anything in it that depends on the text. -/
def skeleton (e : Entry) : Entry :=
  .bare e.kind.syntactic e.branch

end Entry

namespace FlowNode

def skeleton (n : FlowNode) : FlowNode :=
  { n with toEntry := n.toEntry.skeleton }

@[simp] theorem skeleton_id (n : FlowNode) : n.skeleton.id = n.id := rfl

@[simp] theorem skeleton_parentLink (n : FlowNode) : n.skeleton.parentLink = n.parentLink := rfl

@[simp] theorem skeleton_branch (n : FlowNode) : n.skeleton.branch = n.branch := rfl

@[simp] theorem skeleton_kind (n : FlowNode) : n.skeleton.kind = n.kind.syntactic := rfl

end FlowNode

namespace FlowTree

mutual

def skeleton : FlowTree → FlowTree
  | node e cs => node e.skeleton (skeletonAll cs)

def skeletonAll : List FlowTree → List FlowTree
  | [] => []
  | t :: ts => t.skeleton :: skeletonAll ts

end

theorem skeletonAll_append (ts us : List FlowTree) :
    skeletonAll (ts ++ us) = skeletonAll ts ++ skeletonAll us := by
  induction ts with
  | nil => rfl
  | cons t ts ih => rw [List.cons_append, skeletonAll, skeletonAll, ih, List.cons_append]

mutual

theorem size_skeleton : (t : FlowTree) → t.skeleton.size = t.size
  | node e cs => by rw [skeleton, size, size, sizeAll_skeletonAll cs]

theorem sizeAll_skeletonAll : (ts : List FlowTree) → sizeAll (skeletonAll ts) = sizeAll ts
  | [] => rfl
  | t :: ts => by rw [skeletonAll, sizeAll, sizeAll, size_skeleton t, sizeAll_skeletonAll ts]

end

mutual

theorem number_skeleton (first : Nat) (parent : Option String) :
    (t : FlowTree) → t.skeleton.number first parent = (t.number first parent).map (·.skeleton)
  | node e cs => by
    rw [skeleton, number, number, List.map_cons, numberAll_skeletonAll _ _ cs]
    rfl

theorem numberAll_skeletonAll (first : Nat) (parent : Option String) :
    (ts : List FlowTree) →
      numberAll first parent (skeletonAll ts) = (numberAll first parent ts).map (·.skeleton)
  | [] => rfl
  | t :: ts => by
    rw [skeletonAll, numberAll, numberAll, List.map_append, number_skeleton _ _ t,
      size_skeleton t, numberAll_skeletonAll _ _ ts]

end

end FlowTree

namespace Plan

mutual

/-- The part without the names that it passes on to functions. -/
def skeleton : Plan → Plan
  | visit _ t => visit none t
  | node e parts => node e.skeleton (skeletonAll parts)

def skeletonAll : List Plan → List Plan
  | [] => []
  | p :: ps => p.skeleton :: skeletonAll ps

end

theorem skeletonAll_eq_map (ps : List Plan) : skeletonAll ps = ps.map skeleton := by
  induction ps with
  | nil => rfl
  | cons p ps ih => rw [skeletonAll, ih, List.map_cons]

/-- Nodes have one skeleton when their entries and what they hold have. The kind and the branch are
told, so that nothing is compared that depends on the texts. -/
theorem skeleton_node_congr {e e' : Entry} {parts parts' : List Plan} (kind : NodeKind)
    (branch : Option Branch) (he : e.skeleton = .bare kind branch)
    (he' : e'.skeleton = .bare kind branch) (hparts : parts.map skeleton = parts'.map skeleton) :
    (node e parts).skeleton = (node e' parts').skeleton := by
  rw [skeleton, skeleton, skeletonAll_eq_map, skeletonAll_eq_map, he, he', hparts]

mutual

/-- If the visited trees have outlines whose skeletons do not depend on the names that are passed
on, then the skeleton of a part decides that of its outline. -/
theorem skeletonAll_resolve {visited : Option String → Tree → List FlowTree}
    {skeletons : Tree → List FlowTree}
    (h : ∀ name t, FlowTree.skeletonAll (visited name t) = skeletons t) :
    (p : Plan) → FlowTree.skeletonAll (p.resolve visited) =
      p.skeleton.resolve fun _ t => skeletons t
  | visit name t => h name t
  | node e parts => by
    rw [resolve, skeleton, resolve, ← skeletonAll_resolveAll h parts]
    rfl

theorem skeletonAll_resolveAll {visited : Option String → Tree → List FlowTree}
    {skeletons : Tree → List FlowTree}
    (h : ∀ name t, FlowTree.skeletonAll (visited name t) = skeletons t) :
    (ps : List Plan) → FlowTree.skeletonAll (resolveAll visited ps) =
      resolveAll (fun _ t => skeletons t) (skeletonAll ps)
  | [] => rfl
  | p :: ps => by
    rw [resolveAll, skeletonAll, resolveAll, FlowTree.skeletonAll_append,
      skeletonAll_resolve h p, skeletonAll_resolveAll h ps]

end

private theorem map_skeleton_one {p q : Plan} (h : p.skeleton = q.skeleton) :
    [p].map skeleton = [q].map skeleton :=
  congrArg (fun p => [p]) h

section

variable (src src' : Source)

theorem skeleton_function (name name' : Option String) (fn : Tree) :
    (function src name fn).skeleton = (function src' name' fn).skeleton :=
  skeleton_node_congr .function none rfl rfl rfl

theorem skeleton_immediate (stmt fn : Tree) :
    (immediate src stmt fn).skeleton = (immediate src' stmt fn).skeleton :=
  skeleton_node_congr .function none rfl rfl rfl

/-- A tree that makes an instance is no function, so that a declaration is a variable or a function
whichever class the text names. -/
theorem isFunction_of_classOf {value : Tree} {cls : String}
    (h : Platform.classOf src value = some cls) : value.isFunction = false := by
  rw [Platform.classOf] at h
  split at h
  · rename_i htype
    simp [Tree.isFunction, htype]
  · cases h

theorem skeleton_declared (stmt declarator value : Tree) :
    (declared src stmt declarator value).skeleton =
      if value.isFunction then (function src none value).skeleton
      else (node (Entry.over src .varDecl "" stmt.span) []).skeleton := by
  unfold declared
  split
  · rename_i cls hcls
    rw [isFunction_of_classOf src hcls]
    exact skeleton_node_congr .varDecl none rfl rfl rfl
  · split
    · exact skeleton_function src src _ _ value
    · exact skeleton_node_congr .varDecl none rfl rfl rfl

theorem skeleton_declaration (stmt : Tree) :
    (declaration src stmt).map skeleton = (declaration src' stmt).map skeleton := by
  rw [declaration, declaration, List.map_filterMap, List.map_filterMap]
  refine List.filterMap_congr fun declarator _ => ?_
  rw [Option.map_map, Option.map_map]
  refine Option.map_congr fun value _ => ?_
  rw [Function.comp_apply, Function.comp_apply, skeleton_declared src, skeleton_declared src',
    skeleton_function src src' none none]
  exact if_congr Iff.rfl rfl (skeleton_node_congr .varDecl none rfl rfl rfl)

theorem skeleton_arm (branch : Branch) (t : Tree) :
    (arm src branch t).skeleton = (arm src' branch t).skeleton :=
  skeleton_node_congr .branch (some branch) rfl rfl rfl

theorem skeleton_trueArm (t : Tree) :
    (trueArm src t).map skeleton = (trueArm src' t).map skeleton := by
  rw [trueArm, trueArm, List.map_map, List.map_map]
  exact List.map_congr_left fun a _ => skeleton_arm src src' .onTrue a

theorem skeleton_ladder (rungs : Nat) (t : Tree) :
    (ladder src rungs t).skeleton = (ladder src' rungs t).skeleton := by
  induction rungs generalizing t with
  | zero => exact skeleton_node_congr .condition none rfl rfl (skeleton_trueArm src src' t)
  | succ rungs ih =>
    refine skeleton_node_congr .condition none rfl rfl ?_
    rw [List.map_append, List.map_append, skeleton_trueArm src src']
    congr 1
    cases alternative? t with
    | none => rfl
    | some a =>
      dsimp only
      split
      · exact map_skeleton_one
          (skeleton_node_congr .branch (some .onFalse) rfl rfl (map_skeleton_one (ih a)))
      · exact map_skeleton_one (skeleton_arm src src' .onFalse a)

theorem skeleton_clause (t : Tree) : (clause src t).skeleton = (clause src' t).skeleton :=
  skeleton_node_congr .caseClause none rfl rfl rfl

theorem skeleton_switch (t : Tree) : (switch src t).skeleton = (switch src' t).skeleton := by
  refine skeleton_node_congr .switch none rfl rfl ?_
  rw [List.map_map, List.map_map]
  exact List.map_congr_left fun c _ => skeleton_clause src src' c

theorem skeleton_loop (word word' label label' : String) (t : Tree) :
    (loop src word label t).skeleton = (loop src' word' label' t).skeleton :=
  skeleton_node_congr .loop none rfl rfl rfl

theorem skeleton_catchPlan (handler : Tree) :
    (catchPlan src handler).skeleton = (catchPlan src' handler).skeleton :=
  skeleton_node_congr .catchClause none rfl rfl rfl

theorem skeleton_finallyPlan (finalizer : Tree) :
    (finallyPlan src finalizer).skeleton = (finallyPlan src' finalizer).skeleton :=
  skeleton_node_congr .finallyClause none rfl rfl rfl

theorem skeleton_tryBlock (t : Tree) : (tryBlock src t).skeleton = (tryBlock src' t).skeleton := by
  refine skeleton_node_congr .tryStmt none rfl rfl ?_
  have hhandler := List.map_congr_left (l := (t.field? "handler").toList)
    fun handler _ => skeleton_catchPlan src src' handler
  have hfinalizer := List.map_congr_left (l := (t.field? "finalizer").toList)
    fun finalizer _ => skeleton_finallyPlan src src' finalizer
  simp only [List.map_append, List.map_map, Function.comp_def, hhandler, hfinalizer]

/-- A call is one node, unless its callee is a function that is written there. -/
theorem skeleton_callPlan (stmt call : Tree) :
    (callPlan src stmt call).skeleton = (callPlan src' stmt call).skeleton := by
  unfold callPlan
  cases (Platform.callee? call).filter Tree.isFunction with
  | some fn => exact skeleton_immediate src src' stmt fn
  | none =>
    -- Either text may name an operation of the platform and the other not.
    dsimp only
    split <;> split <;> exact skeleton_node_congr .genericCall none rfl rfl rfl

theorem skeleton_assignment (stmt expr : Tree) :
    (assignment src stmt expr).skeleton = (assignment src' stmt expr).skeleton := by
  unfold assignment
  dsimp only
  split <;> split <;> exact skeleton_node_congr .genericAssignment none rfl rfl rfl

theorem skeleton_update (stmt expr : Tree) :
    (update src stmt expr).skeleton = (update src' stmt expr).skeleton :=
  skeleton_node_congr .genericAssignment none rfl rfl rfl

theorem skeleton_expression (stmt : Tree) :
    (expression src stmt).map skeleton = (expression src' stmt).map skeleton := by
  unfold expression
  cases stmt.firstStatement?.bind Tree.unwrap with
  | none => rfl
  | some expr =>
    dsimp only
    split_ifs
    · exact map_skeleton_one (skeleton_callPlan src src' stmt expr)
    · exact map_skeleton_one (skeleton_assignment src src' stmt expr)
    · exact map_skeleton_one (skeleton_update src src' stmt expr)
    · rfl

/-- The text changes nothing in the skeletons of the parts that a statement gives rise to. -/
theorem skeleton_ofTree (name name' : Option String) (t : Tree) :
    (ofTree src name t).map skeleton = (ofTree src' name' t).map skeleton := by
  unfold ofTree
  cases t.construct with
  | block => rfl
  | function => exact map_skeleton_one (skeleton_function src src' name name' t)
  | declaration => exact skeleton_declaration src src' t
  | conditional => exact map_skeleton_one (skeleton_ladder src src' t.size t)
  | switch => exact map_skeleton_one (skeleton_switch src src' t)
  | whileLoop => exact map_skeleton_one (skeleton_loop src src' _ _ _ _ t)
  | doLoop => exact map_skeleton_one (skeleton_loop src src' _ _ _ _ t)
  | forLoop => exact map_skeleton_one (skeleton_loop src src' _ _ _ _ t)
  | forInLoop => exact map_skeleton_one (skeleton_loop src src' _ _ _ _ t)
  | tryBlock => exact map_skeleton_one (skeleton_tryBlock src src' t)
  | exit kind => exact map_skeleton_one (skeleton_node_congr kind.syntactic none rfl rfl rfl)
  | jump kind => exact map_skeleton_one (skeleton_node_congr kind.syntactic none rfl rfl rfl)
  | labeled => rfl
  | expression => exact skeleton_expression src src' t
  | silent => rfl

end
end Plan

namespace Tree
open Plan

theorem skeletonAll_outlineWithin (src src' : Source) (depth : Nat) (name name' : Option String)
    (t : Tree) : FlowTree.skeletonAll (outlineWithin src depth name t) =
      FlowTree.skeletonAll (outlineWithin src' depth name' t) := by
  induction depth generalizing src src' name name' t with
  | zero => rfl
  | succ depth ih =>
    rw [outlineWithin, outlineWithin,
      skeletonAll_resolveAll (fun name t => ih src src' name none t),
      skeletonAll_resolveAll (fun name t => ih src' src' name none t),
      skeletonAll_eq_map, skeletonAll_eq_map, skeleton_ofTree src src' name name' t]

end Tree

/-- The skeletons of the flow nodes of a script depend on its tree alone. -/
theorem map_skeleton_extract (src src' : Source) (t : Tree) :
    (extract src t).map (·.skeleton) = (extract src' t).map (·.skeleton) := by
  have heq (src : Source) : (extract src t).map (·.skeleton) =
      FlowTree.numberAll 0 none (FlowTree.skeletonAll (t.outline src none)) :=
    (FlowTree.numberAll_skeletonAll 0 none (t.outline src none)).symm
  rw [heq src, heq src', Tree.outline, Tree.outline,
    Tree.skeletonAll_outlineWithin src src' t.size none none t]

end Flowchart
