import Flowchart.Diagram.Edge
import Flowchart.Diagram.Layout
import Flowchart.Flow.View
import Flowchart.Proofs.Flow.Skeleton

/-! Positions and edges are found in the skeletons of flow nodes, so that the full diagram of a
script has one shape whatever its text is. -/
namespace Flowchart

namespace FlowNode

variable (nodes : List FlowNode)

theorem withId?_skeleton (id : String) :
    withId? (nodes.map skeleton) id = (withId? nodes id).map skeleton := by
  rw [withId?, withId?, ← List.map_reverse, List.find?_map]
  rfl

theorem childrenOf_skeleton (id : String) :
    childrenOf (nodes.map skeleton) id = (childrenOf nodes id).map skeleton := by
  rw [childrenOf, childrenOf, List.filter_map]
  rfl

end FlowNode

namespace Layout
open FlowNode

variable (nodes : List FlowNode)

theorem childIds_skeleton (id : String) : childIds (nodes.map skeleton) id = childIds nodes id := by
  rw [childIds, childIds, childrenOf_skeleton, List.map_map]
  rfl

theorem isBranch_skeleton (id : String) : isBranch (nodes.map skeleton) id = isBranch nodes id := by
  rw [isBranch, isBranch, withId?_skeleton, Option.any_map]
  congr 1
  funext n
  exact decide_eq_decide.mpr (NodeKind.syntactic_eq_iff rfl n.kind)

theorem armShift_skeleton (index : Nat) (id : String) :
    armShift (nodes.map skeleton) index id = armShift nodes index id := by
  rw [armShift, armShift, withId?_skeleton, Option.any_map]
  rfl

theorem columns_skeleton : columns (nodes.map skeleton) = columns nodes := by
  funext id
  have hbranch : isBranch (nodes.map skeleton) = isBranch nodes :=
    funext fun id => isBranch_skeleton nodes id
  simp only [columns, childIds_skeleton, hbranch, armShift_skeleton]

theorem below_skeleton : below (nodes.map skeleton) = below nodes := by
  funext id
  rw [below, below, columns_skeleton]

theorem roots_skeleton : roots (nodes.map skeleton) = roots nodes := by
  rw [roots, roots, List.filter_map, List.map_map]
  rfl

theorem waysDown_skeleton (depth : Nat) :
    waysDown (nodes.map skeleton) depth = waysDown nodes depth := by
  funext id
  induction depth generalizing id with
  | zero => rfl
  | succ depth ih => rw [waysDown, waysDown, below_skeleton, List.map_congr_left fun id _ => ih id]

theorem rounds_skeleton (ids : List String) :
    rounds (nodes.map skeleton) ids = rounds nodes ids := by
  simp only [rounds, List.length_map, waysDown_skeleton]

theorem visit_skeleton (rounds : Nat) (stack seen : List String) :
    visit (nodes.map skeleton) rounds stack seen = visit nodes rounds stack seen := by
  induction rounds generalizing stack seen with
  | zero => cases stack <;> rfl
  | succ rounds ih =>
    cases stack with
    | nil => rfl
    | cons id stack => rw [visit, visit, below_skeleton, ih]

theorem addHeights_skeleton (heights : List (String × Nat)) (ids : List String) :
    addHeights (nodes.map skeleton) heights ids = addHeights nodes heights ids := by
  induction ids generalizing heights with
  | nil => rfl
  | cons id ids ih => simp only [addHeights, columns_skeleton, ih]

theorem heights?_skeleton : heights? (nodes.map skeleton) = heights? nodes := by
  simp only [heights?, roots_skeleton, rounds_skeleton, visit_skeleton, addHeights_skeleton]

theorem place_skeleton (heights : List (String × Nat)) (rounds : Nat)
    (pending placed : List (String × Position)) :
    place (nodes.map skeleton) heights rounds pending placed =
      place nodes heights rounds pending placed := by
  induction rounds generalizing pending placed with
  | zero => cases pending <;> rfl
  | succ rounds ih =>
    cases pending with
    | nil => rfl
    | cons next pending => simp only [place, columns_skeleton, ih]

theorem placeRoots_skeleton (heights : List (String × Nat)) (top : Position)
    (placed : List (String × Position)) (ids : List String) :
    placeRoots (nodes.map skeleton) heights top placed ids =
      placeRoots nodes heights top placed ids := by
  induction ids generalizing top placed with
  | nil => rfl
  | cons id ids ih => simp only [placeRoots, rounds_skeleton, place_skeleton, ih]

/-- Positions do not depend on anything but the skeletons of the nodes. -/
theorem positions?_skeleton : positions? (nodes.map skeleton) = positions? nodes := by
  simp only [positions?, heights?_skeleton, roots_skeleton, placeRoots_skeleton]

end Layout

namespace FlowNode

variable (nodes : List FlowNode)

theorem isDrawn_skeleton (n : FlowNode) : n.skeleton.isDrawn = n.isDrawn :=
  decide_eq_decide.mpr (not_congr (NodeKind.syntactic_eq_iff rfl n.kind))

theorem parent?_skeleton (n : FlowNode) :
    n.skeleton.parent? (nodes.map skeleton) = (n.parent? nodes).map skeleton := by
  rw [parent?, parent?, skeleton_parentLink, Option.map_bind]
  congr 1
  funext id
  exact withId?_skeleton nodes id

theorem filter_isDrawn_skeleton (group : List FlowNode) :
    (group.map skeleton).filter isDrawn = (group.filter isDrawn).map skeleton := by
  rw [List.filter_map]
  congr 1
  exact List.filter_congr fun n _ => isDrawn_skeleton n

theorem entryClass_skeleton (parent child : FlowNode) :
    entryClass parent.skeleton child.skeleton = entryClass parent child := by
  rw [entryClass, entryClass]
  exact if_congr (NodeKind.syntactic_eq_iff rfl parent.kind) rfl
    (if_congr (NodeKind.syntactic_eq_iff rfl child.kind) rfl rfl)

theorem armEdge_skeleton (condition arm : FlowNode) :
    armEdge (nodes.map skeleton) condition.skeleton arm.skeleton = armEdge nodes condition arm := by
  rw [armEdge, armEdge, skeleton_id, childrenOf_skeleton, List.head?_map, Option.map_map]
  rfl

theorem entryEdge_skeleton (n : FlowNode) :
    entryEdge (nodes.map skeleton) n.skeleton = entryEdge nodes n := by
  rw [entryEdge, entryEdge, parent?_skeleton, Option.bind_map]
  congr 1
  funext parent
  have hfirst : ((childrenOf (nodes.map skeleton) parent.skeleton.id).filter isDrawn).head?.any
      (·.id = n.skeleton.id) =
        ((childrenOf nodes parent.id).filter isDrawn).head?.any (·.id = n.id) := by
    rw [skeleton_id, childrenOf_skeleton, filter_isDrawn_skeleton, List.head?_map, Option.any_map]
    rfl
  simp only [Function.comp_apply]
  rw [hfirst, armEdge_skeleton, entryClass_skeleton]
  exact if_congr (NodeKind.syntactic_eq_iff rfl n.kind) rfl
    (if_congr (NodeKind.syntactic_eq_iff rfl parent.kind) rfl rfl)

theorem chainEdges_skeleton (group : List FlowNode) :
    chainEdges (group.map skeleton) = chainEdges group := by
  have hends : (fun pair : FlowNode × FlowNode => !pair.1.kind.isTerminal) ∘
      Prod.map skeleton skeleton = fun pair => !pair.1.kind.isTerminal :=
    funext fun pair => congrArg (!·) (NodeKind.isTerminal_syntactic pair.1.kind)
  simp only [chainEdges]
  rw [filter_isDrawn_skeleton, ← List.map_tail, List.zip_map, List.filter_map,
    hends, List.map_map]
  rfl

theorem parentIds_skeleton : parentIds (nodes.map skeleton) = parentIds nodes := by
  rw [parentIds, parentIds, List.filterMap_map]
  rfl

theorem handlerEdge_skeleton (n : FlowNode) :
    handlerEdge (nodes.map skeleton) n.skeleton = handlerEdge nodes n := by
  have htry (parent : FlowNode) :
      decide (parent.skeleton.kind = .tryStmt) = decide (parent.kind = .tryStmt) :=
    decide_eq_decide.mpr (NodeKind.syntactic_eq_iff rfl parent.kind)
  have hfilter : ((n.parent? nodes).map skeleton).filter (·.kind = .tryStmt) =
      ((n.parent? nodes).filter (·.kind = .tryStmt)).map skeleton := by
    rw [Option.filter_map]
    simp only [Function.comp_def, htry]
  rw [handlerEdge, handlerEdge, parent?_skeleton, hfilter, Option.bind_map]
  congr 1
  funext parent
  rw [Function.comp_apply, skeleton_kind]
  cases n.kind <;> rfl

/-- Edges do not depend on anything but the skeletons of the nodes. -/
theorem edges_skeleton : edges (nodes.map skeleton) = edges nodes := by
  have hentry : entryEdge (nodes.map skeleton) ∘ skeleton = entryEdge nodes :=
    funext fun n => entryEdge_skeleton nodes n
  have hhandler : handlerEdge (nodes.map skeleton) ∘ skeleton = handlerEdge nodes :=
    funext fun n => handlerEdge_skeleton nodes n
  rw [edges, edges, List.filterMap_map, List.filterMap_map, hentry, hhandler, parentIds_skeleton]
  simp only [childrenOf_skeleton, chainEdges_skeleton]

end FlowNode

/-- The full diagram has one shape for all texts that a tree may come with: the extracted nodes
agree in their ids, parents and branches, and in their kinds but for the question whether a call or
an assignment uses the platform; their positions and the edges between them are the same. -/
theorem extract_shape (src src' : Source) (t : Tree) :
    let nodes := View.fullOperations.apply (extract src t)
    let nodes' := View.fullOperations.apply (extract src' t)
    nodes.map (fun n => (n.id, n.parent, n.branch, n.kind.syntactic)) =
        nodes'.map (fun n => (n.id, n.parent, n.branch, n.kind.syntactic)) ∧
      Layout.positions? nodes = Layout.positions? nodes' ∧
      FlowNode.edges nodes = FlowNode.edges nodes' := by
  intro nodes nodes'
  have hskeleton : nodes.map (·.skeleton) = nodes'.map (·.skeleton) :=
    map_skeleton_extract src src' t
  refine ⟨?_, ?_, ?_⟩
  · have hread := congrArg (List.map fun n : FlowNode => (n.id, n.parent, n.branch, n.kind))
      hskeleton
    rwa [List.map_map, List.map_map] at hread
  · rw [← Layout.positions?_skeleton nodes, ← Layout.positions?_skeleton nodes']
    exact congrArg Layout.positions? hskeleton
  · rw [← FlowNode.edges_skeleton nodes, ← FlowNode.edges_skeleton nodes']
    exact congrArg FlowNode.edges hskeleton

end Flowchart
