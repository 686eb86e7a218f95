import Flowchart.Script.Source
import Flowchart.Text.Quoted

/-! Flow nodes: one record for each control-flow construct or operation of a script. -/
namespace Flowchart

inductive NodeKind where
  | function
  | varDecl
  | condition
  | branch
  | switch
  | caseClause
  | loop
  | tryStmt
  | catchClause
  | finallyClause
  | returnStmt
  | throwStmt
  | breakStmt
  | continueStmt
  | platformCall
  | genericCall
  | assignment
  | genericAssignment
  deriving DecidableEq, Repr, Inhabited

/-- The arm of a condition. -/
inductive Branch where
  | onTrue
  | onFalse
  deriving DecidableEq, Repr

/-- The closed sets of names that a node or an edge is described with. -/
inductive Vocabulary where
  | nodeKind
  | branch
  | edgeClass
  deriving DecidableEq, Repr

def Vocabulary.title : Vocabulary → String
  | nodeKind => "NodeKind"
  | branch => "BranchType"
  | edgeClass => "EdgeClass"

/-- A name that its vocabulary does not have. -/
structure UnknownName where
  vocabulary : Vocabulary
  given : String
  deriving DecidableEq, Repr

def UnknownName.message (e : UnknownName) : String :=
  Text.quote e.given ++ " is not a valid " ++ e.vocabulary.title

namespace NodeKind

def name : NodeKind → String
  | function => "function"
  | varDecl => "variable"
  | condition => "condition"
  | branch => "branch"
  | switch => "switch"
  | caseClause => "case"
  | loop => "loop"
  | tryStmt => "try"
  | catchClause => "catch"
  | finallyClause => "finally"
  | returnStmt => "return"
  | throwStmt => "throw"
  | breakStmt => "break"
  | continueStmt => "continue"
  | platformCall => "platformCall"
  | genericCall => "genericCall"
  | assignment => "assignment"
  | genericAssignment => "genericAssignment"

def all : List NodeKind :=
  [function, varDecl, condition, branch, switch, caseClause, loop, tryStmt, catchClause,
    finallyClause, returnStmt, throwStmt, breakStmt, continueStmt, platformCall, genericCall,
    assignment, genericAssignment]

def ofName (s : String) : Except UnknownName NodeKind :=
  match all.find? (·.name = s) with
  | some k => .ok k
  | none => .error ⟨.nodeKind, s⟩

theorem ofName_name (k : NodeKind) : ofName k.name = .ok k := by
  cases k <;> rfl

/-- Execution does not go on past a node of one of these kinds. -/
def isTerminal : NodeKind → Bool
  | returnStmt | throwStmt | breakStmt | continueStmt => true
  | _ => false

end NodeKind

namespace Branch

def name : Branch → String
  | onTrue => "true"
  | onFalse => "false"

def ofName (s : String) : Except UnknownName Branch :=
  match [onTrue, onFalse].find? (·.name = s) with
  | some b => .ok b
  | none => .error ⟨.branch, s⟩

end Branch

/-- What a node shows, apart from its place in the flow. -/
structure Entry where
  kind : NodeKind
  label : String
  range : CharRange
  loc : LocRange
  detail : Option String := none
  snippet : Option String := none
  subtype : Option String := none
  branch : Option Branch := none
  deriving DecidableEq, Repr, Inhabited

/-- An entry with its id and the id of the node it belongs to. -/
structure FlowNode extends Entry where
  id : String
  parent : Option String := none
  deriving DecidableEq, Repr, Inhabited

namespace Entry

/-- A declaration that makes an instance of a platform class, which is then its subtype. -/
def isPlatformInstance (e : Entry) : Bool :=
  e.kind = .varDecl && e.subtype.isSome

end Entry

namespace FlowNode

/-- The parent to look up. An empty id is no parent. -/
def parentLink (n : FlowNode) : Option String :=
  n.parent.filter (· ≠ "")

/-- The node with a given id; of several, the last one. -/
def withId? (nodes : List FlowNode) (id : String) : Option FlowNode :=
  nodes.reverse.find? (·.id = id)

/-- The nodes that name `id` as their parent. -/
def childrenOf (nodes : List FlowNode) (id : String) : List FlowNode :=
  nodes.filter (·.parentLink = some id)

end FlowNode
end Flowchart
