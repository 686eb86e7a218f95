import Flowchart.Describe
import Flowchart.Flow.Extract
import Flowchart.Flow.View
import Flowchart.Json.Flow
import Flowchart.Json.Print
import Flowchart.Mermaid.Check
import Flowchart.Mermaid.Render
import Flowchart.Script.Fault

/-! The chart of a script: everything that is derived from the nodes of a view. -/
namespace Flowchart

structure Chart where
  view : View
  nodes : List FlowNode
  diagram : Diagram
  stats : Stats
  mermaid : String
  problem : Option Mermaid.Problem

namespace Chart

/-- The chart of the nodes that a view shows. -/
def ofNodes (view : View) (nodes : List FlowNode) : Chart :=
  let diagram := Diagram.ofNodes nodes
  let mermaid := Mermaid.render diagram
  { view, nodes, diagram, mermaid
    stats := Stats.ofNodes nodes
    problem := match Mermaid.check mermaid with
      | .ok () => none
      | .error p => some p }

/-- The chart of a script without faults. -/
def ofScript (view : View) (src : Source) (t : Tree) : Except ParseError Chart := do
  t.check src
  return ofNodes view (view.apply (extract src t))

/-- The members of the chart's object in front of its descriptions. -/
def members (c : Chart) (fileName : String) : List (String × Json) := [
  ("file_name", .str fileName),
  ("view", .str c.view.name),
  ("nodes", .arr (c.nodes.map FlowNode.toJson)),
  ("diagram", c.diagram.toJson),
  ("stats", c.stats.toJson)]

def toJson (c : Chart) (fileName : String) (descriptions : List (String × String)) : Json :=
  .obj (c.members fileName ++ [
    ("descriptions", .obj (descriptions.map fun (id, text) => (id, .str text))),
    ("feedback", .strOrNull (c.problem.map Mermaid.Problem.message))])

/-- The beginning of the text of the chart's object, up to the description of `id`. -/
def printUpTo (c : Chart) (fileName : String) (before : List (String × String)) (id : String) :
    String :=
  Json.printUpTo 0 (c.members fileName) "descriptions" ++
    Json.printUpTo 1 (before.map fun (id, text) => (id, .str text)) id

end Chart

/-- A description that cannot be encoded: the descriptions in front of it, and its id. -/
structure Unencodable where
  before : List (String × String)
  id : String
  error : EncodingError
  deriving DecidableEq, Repr

/-- The place is counted from the quotation mark that the description begins with. -/
def Unencodable.message (u : Unencodable) : String :=
  u.error.message (1 + (u.error.before.flatMap Json.escapeChar).length)

/-- The descriptions as they can be written. -/
def Descriptions.encode : Descriptions → Except Unencodable (List (String × String))
  | [] => .ok []
  | (id, text) :: rest =>
    match text.encode with
    | .error error => .error { before := [], id, error }
    | .ok s =>
      match Descriptions.encode rest with
      | .error u => .error { u with before := (id, s) :: u.before }
      | .ok rest => .ok ((id, s) :: rest)

end Flowchart
