import Flowchart.Script.Tree
import Flowchart.Text.Lines

/-! Trees written as rows, the nodes in preorder, each with its depth. -/
namespace Flowchart

structure Row where
  depth : Nat
  mark : Mark
  deriving DecidableEq, Repr, Inhabited

namespace Row

/-- A row with its flags as one number: one for named, two for missing, four for damaged. -/
def ofFlags (depth : Nat) (type : String) (flags : Nat) (span : Span) (field : Option String) :
    Row where
  depth := depth
  mark := {
    type, span, field
    named := flags % 2 = 1
    missing := flags / 2 % 2 = 1
    damaged := flags / 4 % 2 = 1 }

/-- Reads depth, type, flags, start, end and perhaps a field, with tabs between them. -/
def ofLine? (line : List Char) : Option Row := do
  let number (cs : List Char) := (String.ofList cs).toNat?
  match Text.splitAt '\t' line with
  | depth :: type :: flags :: start :: stop :: field =>
    return ofFlags (← number depth) (.ofList type) (← number flags)
      ⟨← number start, ← number stop⟩ (field.head?.map .ofList)
  | _ => none

end Row

namespace Tree

/-- The trees that a list of rows describes, with the depth of each root. A row takes as its
children the trees that follow it at a greater depth. -/
def forestOfRows : List Row → List (Nat × Tree)
  | [] => []
  | r :: rest =>
    let later := forestOfRows rest
    (r.depth, node r.mark ((later.takeWhile (r.depth < ·.1)).map (·.2))) ::
      later.dropWhile (r.depth < ·.1)

/-- The tree whose root is the first row. -/
def ofRows? (rows : List Row) : Option Tree :=
  (forestOfRows rows).head?.map (·.2)

/-- The tree that a text of rows describes, a line for each row. -/
def ofText? (text : List Char) : Option Tree :=
  ((Text.lines text).mapM Row.ofLine?).bind ofRows?

end Tree
end Flowchart
