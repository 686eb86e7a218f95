import Flowchart.Flow.Node
import Flowchart.Text.Blank

/-! Views of a flow: all of its nodes, or those that matter for its logic. -/
namespace Flowchart

inductive View where
  | logic
  | fullOperations
  deriving DecidableEq, Repr

/-- A view name that is not known; nothing when no name was given. -/
structure UnknownView where
  given : Option String
  deriving DecidableEq, Repr

/-- What is said about a view name that is shown as `shown`. -/
def UnknownView.text (shown : String) : String :=
  "Unknown view mode: " ++ shown ++ " (expected 'logic' or 'fullOperations')"

def UnknownView.message (e : UnknownView) : String :=
  UnknownView.text (e.given.elim "None" Text.quote)

namespace View

def name : View → String
  | logic => "logic"
  | fullOperations => "fullOperations"

/-- Reads a view name, without regard to case and to blanks around it. -/
def parse (given : Option String) : Except UnknownView View :=
  let word := (Text.trim (given.getD "").toList).map Char.toLower
  if ["fullops", "full", "fulloperations"].any (·.toList = word) then .ok fullOperations
  else if "logic".toList = word then .ok logic
  else .error ⟨given⟩

end View

namespace FlowNode

/-- Control flow, platform calls and exits belong to the logic of a script. -/
def inLogic (n : FlowNode) : Bool :=
  match n.kind with
  | .genericCall | .assignment | .genericAssignment => false
  | .varDecl => n.isPlatformInstance
  | _ => true

/-- The first node accepted by `keep` on the way from `id` up along the parents. -/
def climb (nodes : List FlowNode) (keep : String → Bool) : Nat → String → Option String
  | 0, _ => none
  | steps + 1, id =>
    match withId? nodes id with
    | none => none
    | some n => if keep n.id then some n.id else n.parentLink.bind (climb nodes keep steps)

/-- The nodes of the logic view. A node whose parent is not shown moves to its nearest ancestor
that is. A way up without repetition takes no more steps than there are nodes. -/
def logicView (nodes : List FlowNode) : List FlowNode :=
  let kept := nodes.filter (·.inLogic)
  let keep (id : String) := kept.any (·.id = id)
  kept.map fun n =>
    match n.parent with
    | none => n
    | some p => if keep p then n else { n with parent := climb nodes keep nodes.length p }

end FlowNode

/-- The nodes that a view shows. -/
def View.apply (v : View) (nodes : List FlowNode) : List FlowNode :=
  match v with
  | logic => FlowNode.logicView nodes
  | fullOperations => nodes

end Flowchart
