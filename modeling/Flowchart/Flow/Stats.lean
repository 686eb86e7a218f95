import Flowchart.Flow.Node

/-! How many nodes of each sort a flow has. -/
namespace Flowchart

structure Stats where
  total : Nat := 0
  functions : Nat := 0
  conditions : Nat := 0
  loops : Nat := 0
  platformCalls : Nat := 0
  tryCatch : Nat := 0
  returns : Nat := 0
  varDecls : Nat := 0
  calls : Nat := 0
  assignments : Nat := 0
  /-- The number of nodes of each kind that occurs, in the order of first occurrence. -/
  byKind : List (NodeKind × Nat) := []
  deriving DecidableEq, Repr, Inhabited

namespace Stats

/-- Conditions, switches and loops together. -/
def decisions (s : Stats) : Nat :=
  s.conditions + s.loops

/-- One more of a kind; a kind not seen before goes to the end. -/
def countKind (k : NodeKind) : List (NodeKind × Nat) → List (NodeKind × Nat)
  | [] => [(k, 1)]
  | (k', n) :: rest => if k' = k then (k, n + 1) :: rest else (k', n) :: countKind k rest

/-- Counts a node under the heading it belongs to. Instances of platform classes count as
platform calls, not as variables. -/
def countHeading (s : Stats) (e : Entry) : Stats :=
  match e.kind with
  | .function => { s with functions := s.functions + 1 }
  | .condition | .switch => { s with conditions := s.conditions + 1 }
  | .loop => { s with loops := s.loops + 1 }
  | .platformCall => { s with platformCalls := s.platformCalls + 1 }
  | .varDecl =>
    if e.isPlatformInstance then { s with platformCalls := s.platformCalls + 1 }
    else { s with varDecls := s.varDecls + 1 }
  | .tryStmt => { s with tryCatch := s.tryCatch + 1 }
  | .returnStmt => { s with returns := s.returns + 1 }
  | .genericCall => { s with calls := s.calls + 1 }
  | .assignment | .genericAssignment => { s with assignments := s.assignments + 1 }
  | .branch | .caseClause | .catchClause | .finallyClause | .throwStmt | .breakStmt
  | .continueStmt => s

def count (s : Stats) (e : Entry) : Stats :=
  let s := s.countHeading e
  { s with total := s.total + 1, byKind := countKind e.kind s.byKind }

def ofNodes (nodes : List FlowNode) : Stats :=
  nodes.foldl (fun s n => s.count n.toEntry) {}

end Stats
end Flowchart
