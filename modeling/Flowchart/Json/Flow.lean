import Flowchart.Diagram.Basic
import Flowchart.Flow.Stats
import Flowchart.Json.Basic

/-! Flow nodes, diagrams and statistics as JSON. -/
namespace Flowchart

def CharRange.toJson (r : CharRange) : Json :=
  .arr [.int r.start, .int r.stop]

def Location.toJson (l : Location) : Json :=
  .obj [("line", .int l.line), ("column", .int l.column)]

def LocRange.toJson (l : LocRange) : Json :=
  .obj [("start", l.start.toJson), ("end", l.stop.toJson)]

def FlowNode.toJson (n : FlowNode) : Json :=
  .obj [
    ("id", .str n.id),
    ("kind", .str n.kind.name),
    ("label", .str n.label),
    ("detailedLabel", .strOrNull n.detail),
    ("snippet", .strOrNull n.snippet),
    ("sourceRange", n.range.toJson),
    ("sourceLoc", n.loc.toJson),
    ("parentId", .strOrNull n.parent),
    ("branchType", .strOrNull (n.branch.map Branch.name)),
    ("subtype", .strOrNull n.subtype)]

def Style.toJson (s : Style) : Json :=
  .obj ([
    ("background", .str s.background),
    ("borderColor", .str s.border),
    ("color", .str s.color)] ++ s.shape.toList.map fun shape => ("shape", .str shape))

def LineStyle.toJson (s : LineStyle) : Json :=
  .obj ([("stroke", .str s.stroke), ("strokeWidth", .nat s.width)] ++
    (if s.animated then [("animated", .bool true)] else []) ++
    s.dashes.toList.map fun dashes => ("strokeDasharray", .str dashes))

def Position.toJson (p : Position) : Json :=
  .obj [("x", .int p.x), ("y", .int p.y)]

def RenderNode.toJson (n : RenderNode) : Json :=
  .obj [
    ("id", .str n.id),
    ("position", n.position.toJson),
    ("data", .obj [
      ("label", .str n.label),
      ("fullLabel", .str n.fullLabel),
      ("nodeType", .str n.kind.name),
      ("subtype", .strOrNull n.subtype),
      ("snippet", .strOrNull n.snippet),
      ("range", n.range.toJson),
      ("loc", n.loc.toJson),
      ("style", n.style.toJson)]),
    ("style", .obj [("width", .nat n.width), ("minHeight", .nat n.minHeight)])]

def Edge.toJson (e : Edge) : Json :=
  .obj [
    ("id", .str e.id),
    ("source", .str e.source),
    ("target", .str e.target),
    ("edgeClass", .str e.cls.name),
    ("label", .strOrNull e.label)]

def Diagram.toJson (d : Diagram) : Json :=
  .obj [("nodes", .arr (d.nodes.map RenderNode.toJson)), ("edges", .arr (d.edges.map Edge.toJson))]

def Stats.toJson (s : Stats) : Json :=
  .obj [
    ("total", .nat s.total),
    ("functions", .nat s.functions),
    ("conditions", .nat s.conditions),
    ("loops", .nat s.loops),
    ("decisions", .nat s.decisions),
    ("platformCalls", .nat s.platformCalls),
    ("tryCatch", .nat s.tryCatch),
    ("returns", .nat s.returns),
    ("variables", .nat s.varDecls),
    ("calls", .nat s.calls),
    ("assignments", .nat s.assignments),
    ("byKind", .obj (s.byKind.map fun (k, n) => (k.name, .nat n)))]

end Flowchart
