import Flowchart.Flow.Outline
import Flowchart.Flow.Statement

/-! The outline of a script and the numbered list of its flow nodes. -/
namespace Flowchart

namespace Plan

mutual

/-- The outline of a part, given the outlines of the trees that it visits. -/
def resolve (visited : Option String → Tree → List FlowTree) : Plan → List FlowTree
  | visit name t => visited name t
  | node e parts => [.node e (resolveAll visited parts)]

def resolveAll (visited : Option String → Tree → List FlowTree) : List Plan → List FlowTree
  | [] => []
  | p :: ps => p.resolve visited ++ resolveAll visited ps

end

end Plan

namespace Tree

/-- The outline of a tree, following at most `depth` visits into one another. -/
def outlineWithin (src : Source) : Nat → Option String → Tree → List FlowTree
  | 0, _, _ => []
  | depth + 1, name, t => Plan.resolveAll (outlineWithin src depth) (Plan.ofTree src name t)

/-- The outline of a tree. Every visit goes to a smaller tree, so none is left out. -/
def outline (src : Source) (name : Option String) (t : Tree) : List FlowTree :=
  outlineWithin src t.size name t

end Tree

/-- Flow nodes collected so far, with the number of the next one. -/
structure Builder where
  source : Source
  next : Nat := 0
  nodes : List FlowNode := []

namespace Builder

/-- Adds trees below `parent`. -/
def add (b : Builder) (parent : Option String) (ts : List FlowTree) : Builder :=
  { b with
    next := b.next + FlowTree.sizeAll ts
    nodes := b.nodes ++ FlowTree.numberAll b.next parent ts }

/-- Adds one node below `parent` and tells its id. -/
def addNode (b : Builder) (parent : Option String) (e : Entry) : Builder × String :=
  (b.add parent [.node e []], nodeId b.next)

/-- Adds the outline of a tree below `parent`. -/
def walk (b : Builder) (parent name : Option String) (t : Tree) : Builder :=
  b.add parent (t.outline b.source name)

end Builder

/-- The flow nodes of a script, in the order of its text. -/
def extract (src : Source) (t : Tree) : List FlowNode :=
  ((Builder.mk src 0 []).walk none none t).nodes

end Flowchart
