import Flowchart.Diagram.Layout
import Flowchart.Diagram.Style
import Flowchart.Text.Excerpt

/-! The diagram of a flow: a box for each drawn node, and the edges. -/
namespace Flowchart

structure RenderNode where
  id : String
  kind : NodeKind
  label : String
  fullLabel : String
  position : Position
  style : Style
  width : Nat
  minHeight : Nat
  range : CharRange
  loc : LocRange
  subtype : Option String
  snippet : Option String
  deriving DecidableEq, Repr, Inhabited

structure Diagram where
  nodes : List RenderNode := []
  edges : List Edge := []
  deriving DecidableEq, Repr, Inhabited

/-- The label of a box; a node without a label shows its kind. -/
def Entry.fullLabel (e : Entry) : String :=
  if e.label = "" then e.kind.name else e.label

/-- Conditions have wider boxes. -/
def NodeKind.boxWidth (k : NodeKind) : Nat :=
  if k = .condition then Layout.boxWidth + 20 else Layout.boxWidth

namespace FlowNode

def render (n : FlowNode) (position : Position) : RenderNode where
  id := n.id
  kind := n.kind
  label := .ofList (Text.truncate Text.displayLimit n.fullLabel.toList)
  fullLabel := n.fullLabel
  position := position
  style := Style.ofEntry n.toEntry
  width := n.kind.boxWidth
  minHeight := Layout.boxHeight
  range := n.range
  loc := n.loc
  subtype := n.subtype
  snippet := n.snippet

end FlowNode

/-- The diagram of a list of nodes. A node without a position stands in the corner. -/
def Diagram.ofNodes (nodes : List FlowNode) : Diagram :=
  let placed := (Layout.placements nodes).reverse
  { nodes := (nodes.filter (·.isDrawn)).map fun n => n.render ((placed.lookup n.id).getD ⟨0, 0⟩)
    edges := FlowNode.edges nodes }

end Flowchart
