import Flowchart.Flow.Node

/-! Edges between flow nodes. A parent leads to its first child, and each child to the next one. -/
namespace Flowchart

inductive EdgeClass where
  | sequential
  | onTrue
  | onFalse
  | loopBody
  | exceptionPath
  deriving DecidableEq, Repr, Inhabited

namespace EdgeClass

def name : EdgeClass → String
  | sequential => "sequential"
  | onTrue => "true"
  | onFalse => "false"
  | loopBody => "loopBody"
  | exceptionPath => "exceptionPath"

def all : List EdgeClass :=
  [sequential, onTrue, onFalse, loopBody, exceptionPath]

def ofName (s : String) : Except UnknownName EdgeClass :=
  match all.find? (·.name = s) with
  | some c => .ok c
  | none => .error ⟨.edgeClass, s⟩

end EdgeClass

structure Edge where
  source : String
  target : String
  cls : EdgeClass
  label : Option String := none
  deriving DecidableEq, Repr, Inhabited

namespace Edge

/-- Edges of one key count as the same. -/
def key (e : Edge) : String :=
  e.source ++ "_" ++ e.target

def id (e : Edge) : String :=
  "edge_" ++ e.key

/-- The first edge of each key. -/
def distinct : List Edge → List Edge
  | [] => []
  | e :: es => e :: (distinct es).filter (·.key ≠ e.key)

end Edge

namespace FlowNode

def parent? (nodes : List FlowNode) (n : FlowNode) : Option FlowNode :=
  n.parentLink.bind (withId? nodes)

/-- Branches are not drawn. -/
def isDrawn (n : FlowNode) : Bool :=
  n.kind ≠ .branch

/-- The class of the edge to a first child. -/
def entryClass (parent child : FlowNode) : EdgeClass :=
  if parent.kind = .loop then .loopBody
  else if child.kind = .catchClause then .exceptionPath
  else .sequential

/-- From the condition to what comes first in one of its arms. -/
def armEdge (nodes : List FlowNode) (condition arm : FlowNode) : Option Edge :=
  (childrenOf nodes arm.id).head?.map fun first =>
    if arm.branch = some .onTrue then ⟨condition.id, first.id, .onTrue, some "true"⟩
    else ⟨condition.id, first.id, .onFalse, some "false"⟩

/-- The edge by which a node is entered from its parent, if it is its first drawn child; for a
branch, the edge into its arm. -/
def entryEdge (nodes : List FlowNode) (n : FlowNode) : Option Edge :=
  (n.parent? nodes).bind fun parent =>
    if n.kind = .branch then armEdge nodes parent n
    else if parent.kind = .branch then none
    else
      let first := ((childrenOf nodes parent.id).filter isDrawn).head?
      if first.any (·.id = n.id) then some ⟨parent.id, n.id, entryClass parent n, none⟩ else none

/-- From each drawn node of a group to the next one, unless execution ends there. -/
def chainEdges (group : List FlowNode) : List Edge :=
  let drawn := group.filter isDrawn
  ((drawn.zip drawn.tail).filter (!·.1.kind.isTerminal)).map fun (n, next) =>
    ⟨n.id, next.id, .sequential, none⟩

/-- The ids that some node names as its parent, in the order of their first use. -/
def parentIds (nodes : List FlowNode) : List String :=
  (nodes.filterMap parentLink).eraseDups

/-- From a try statement to its handler and to its finalizer. -/
def handlerEdge (nodes : List FlowNode) (n : FlowNode) : Option Edge :=
  ((n.parent? nodes).filter (·.kind = .tryStmt)).bind fun parent =>
    match n.kind with
    | .catchClause => some ⟨parent.id, n.id, .exceptionPath, none⟩
    | .finallyClause => some ⟨parent.id, n.id, .sequential, none⟩
    | _ => none

/-- All edges between the nodes, each key once. -/
def edges (nodes : List FlowNode) : List Edge :=
  Edge.distinct (nodes.filterMap (entryEdge nodes) ++
    (parentIds nodes).flatMap (fun id => chainEdges (childrenOf nodes id)) ++
    nodes.filterMap (handlerEdge nodes))

end FlowNode
end Flowchart
