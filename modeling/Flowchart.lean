import Flowchart.Main
import Flowchart.Proofs.Flow.Construct
import Flowchart.Proofs.Flow.Forest
import Flowchart.Proofs.Flow.Numbering
import Flowchart.Proofs.Flow.Preorder
import Flowchart.Proofs.Flow.Schema
import Flowchart.Proofs.Flow.Shape
import Flowchart.Proofs.Flow.OutlineShape
import Flowchart.Proofs.Flow.OutlineEquation
import Flowchart.Proofs.Flow.Renumbering
import Flowchart.Proofs.Flow.Occurrence
import Flowchart.Proofs.Flow.StatementPosition
import Flowchart.Proofs.Flow.PositionList
import Flowchart.Proofs.Flow.StatementStep
import Flowchart.Proofs.Flow.StatementMade
import Flowchart.Proofs.Flow.StatementNodes
import Flowchart.Proofs.Diagram.Leads
import Flowchart.Proofs.Diagram.Reachability
import Flowchart.Proofs.Diagram.LogicPaths
import Flowchart.Proofs.Diagram.Box
import Flowchart.Proofs.Diagram.Placement
import Flowchart.Proofs.Diagram.LayoutEquations
import Flowchart.Proofs.Mermaid.Label
import Flowchart.Proofs.Mermaid.Line
import Flowchart.Proofs.Mermaid.Check
import Flowchart.Proofs.Diagram.LayoutLoops
import Flowchart.Proofs.Diagram.RowExtent
import Flowchart.Proofs.Flow.FirstNodes
import Flowchart.Proofs.Diagram.FirstPlaces
import Flowchart.Proofs.Diagram.FirstEdges
import Flowchart.Proofs.Batch.LogMarks
import Flowchart.Proofs.Batch.PathParts
import Flowchart.Proofs.Batch.ReportTexts
import Flowchart.Proofs.Batch.Refusals
import Flowchart.Proofs.Batch.Items
import Flowchart.Proofs.Batch.Lookup
import Flowchart.Proofs.Batch.Directories
import Flowchart.Proofs.Batch.MakeDirs
import Flowchart.Proofs.Batch.PathNames
import Flowchart.Proofs.Batch.ScriptNames
import Flowchart.Proofs.Batch.OutputFiles
import Flowchart.Proofs.Batch.OutputCount
import Flowchart.Proofs.Diagram.Skeleton
import Flowchart.Proofs.Batch.Writes
import Flowchart.Proofs.Json.Beginnings
import Flowchart.Proofs.Batch.Alike
import Flowchart.Proofs.Batch.AlikeTurns
import Flowchart.Proofs.Batch.Describers
import Flowchart.Proofs.Batch.Filling
import Flowchart.Proofs.Batch.Independence
import Flowchart.Proofs.Describe.Inquiries
import Flowchart.Proofs.Describe.Sessions
import Flowchart.Proofs.Diagram.EdgeRules
import Flowchart.Proofs.Mermaid.ReadBack
import Flowchart.Proofs.Flow.Comments
import Flowchart.Proofs.Script.Offsets
import Flowchart.Proofs.Script.Spans
import Flowchart.Proofs.Flow.Ranges
import Flowchart.Proofs.Flow.NearestShown
import Flowchart.Proofs.Script.LineTable
import Flowchart.Proofs.Script.Locations
import Flowchart.Proofs.Flow.FunctionNodes
import Flowchart.Proofs.Describe.FunctionTexts
import Flowchart.Proofs.Flow.ElseIfChains
import Flowchart.Proofs.Script.FirstFault
import Flowchart.Proofs.Text.SingleLine
import Flowchart.Proofs.Mermaid.Escape
import Flowchart.Proofs.Mermaid.LabelCut
import Flowchart.Proofs.Mermaid.LabelForm
import Flowchart.Proofs.Mermaid.Unescape
import Flowchart.Proofs.Script.Parentheses
import Flowchart.Proofs.Platform.Calls
import Flowchart.Proofs.Platform.ComputedCalls
import Flowchart.Proofs.Platform.Instances
import Flowchart.Proofs.Text.Excerpt
import Flowchart.Proofs.Flow.Signatures
import Flowchart.Proofs.Flow.MadeFor
import Flowchart.Proofs.Flow.Stats
import Flowchart.Proofs.Diagram.Reached
import Flowchart.Proofs.Diagram.CatchEdges
import Flowchart.Proofs.Batch.LineEnds
import Flowchart.Proofs.Batch.FileRanges
