import Flowchart.Report

/-! Reports as plain text. -/
namespace Flowchart

/-- The lines of a block. -/
def Block.lines : Block → List String
  | heading level text => [.ofList (List.replicate level '#') ++ " " ++ text]
  | paragraph text => [text]
  | table rows => rows.map fun (title, value) => title ++ ": " ++ value

/-- The blocks one below the other, with an empty line after each. -/
def documentLines (blocks : List Block) : List String :=
  blocks.flatMap fun b => b.lines ++ [""]

end Flowchart
