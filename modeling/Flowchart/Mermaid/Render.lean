import Flowchart.Diagram.Basic
import Flowchart.Mermaid.Label

/-! The Mermaid text of a diagram: a line for each box, then a line for each edge. -/
namespace Flowchart.Mermaid

/-- The kinds drawn as a decision. -/
def isDecision (k : NodeKind) : Bool :=
  k = .condition || k = .switch || k = .loop

def nodeLine (n : RenderNode) : String :=
  let text := label n.fullLabel n.kind.name
  if isDecision n.kind then n.id ++ "\x7b\x7b" ++ text ++ "\x7d\x7d" else n.id ++ "[" ++ text ++ "]"

/-- The way to a handler is dotted. -/
def arrow (c : EdgeClass) : String :=
  if c = .exceptionPath then "-.->" else "-->"

def edgeLine (e : Edge) : String :=
  let text := match e.label.filter (· ≠ "") with
    | some l => "|" ++ label l defaultLabel ++ "| "
    | none => ""
  e.source ++ " " ++ arrow e.cls ++ " " ++ text ++ e.target

/-- The line that opens every text. -/
def header : String := "flowchart TD"

def lines (d : Diagram) : List String :=
  header :: d.nodes.map nodeLine ++ d.edges.map edgeLine

/-- The text of a diagram, each line ended by a line feed. -/
def render (d : Diagram) : String :=
  String.join ((lines d).map (· ++ "\n"))

end Flowchart.Mermaid
