import Flowchart.Describe
import Flowchart.Flow.Stats

/-! A report on one script as the blocks of a document: statistics, functions, Mermaid text. -/
namespace Flowchart

inductive Block where
  | heading (level : Nat) (text : String)
  | paragraph (text : String)
  | table (rows : List (String × String))
  deriving DecidableEq, Repr

namespace Report

section

/-! `hold` gives a text as a document holds it, or why no document can hold it. The titles and the
numbers that a report adds of its own are plain letters and digits, and stand in it as they are. -/

variable (hold : String → Except String String)

def heading (level : Nat) (s : String) : Except String Block :=
  (hold s).map (.heading level)

/-- A paragraph; an absent or empty text gives none. -/
def paragraph? : Option String → Except String (List Block)
  | none => .ok []
  | some s => if s = "" then .ok [] else (hold s).map fun t => [.paragraph t]

end

def statRows (s : Stats) : List (String × String) := [
  ("Functions", toString s.functions),
  ("Conditions", toString s.conditions),
  ("Loops", toString s.loops),
  ("Platform calls", toString s.platformCalls),
  ("Try/catch", toString s.tryCatch),
  ("Returns", toString s.returns),
  ("Variables", toString s.varDecls),
  ("Calls", toString s.calls),
  ("Assignments", toString s.assignments),
  ("Total nodes", toString s.total)]

section

variable (hold : String → Except String String)

/-- The blocks of the functions, numbered from `index` on. -/
def functionBlocks (descriptions : List (String × String)) : Nat → List FlowNode →
    Except String (List Block)
  | _, [] => .ok []
  | index, fn :: rest => do
    let title ← heading hold 3 (toString index ++ ". " ++ fn.label ++ " (line " ++
      toString fn.loc.start.line ++ ")")
    let description ← paragraph? hold (descriptions.lookup fn.id)
    let snippet ← paragraph? hold fn.snippet
    let later ← functionBlocks descriptions (index + 1) rest
    return title :: description ++ snippet ++ later

/-- The section on functions, if there are any. -/
def functionSection (descriptions : List (String × String)) (nodes : List FlowNode) :
    Except String (List Block) :=
  match nodes.filter (·.kind = .function) with
  | [] => .ok []
  | functions => do
    return .heading 2 "Functions" :: (← functionBlocks hold descriptions 1 functions)

/-- The report on a script. -/
def blocks (name : String) (nodes : List FlowNode) (stats : Stats) (mermaid : String)
    (descriptions : List (String × String)) : Except String (List Block) := do
  let title ← heading hold 1 name
  let functions ← functionSection hold descriptions nodes
  let text ← hold mermaid
  return [title, .table (statRows stats)] ++ functions ++
    [.heading 2 "Flowchart (Mermaid)", .paragraph text]

end

end Report
end Flowchart
