import Flowchart.Flow.Node

/-! The outline of a flow: entries nested in one another, and their numbering in preorder. -/
namespace Flowchart

inductive FlowTree where
  | node (entry : Entry) (children : List FlowTree)
  deriving Repr

/-- The id of the node with number `n`. -/
def nodeId (n : Nat) : String :=
  "node_" ++ toString n

namespace FlowTree

def entry : FlowTree → Entry
  | node e _ => e

def children : FlowTree → List FlowTree
  | node _ cs => cs

mutual

def size : FlowTree → Nat
  | node _ cs => 1 + sizeAll cs

def sizeAll : List FlowTree → Nat
  | [] => 0
  | t :: ts => t.size + sizeAll ts

end

mutual

/-- The nodes of a tree under `parent`, numbered from `first` on. -/
def number (first : Nat) (parent : Option String) : FlowTree → List FlowNode
  | node e cs =>
    { e with id := nodeId first, parent } :: numberAll (first + 1) (some (nodeId first)) cs

/-- The nodes of several trees, one tree after the other. -/
def numberAll (first : Nat) (parent : Option String) : List FlowTree → List FlowNode
  | [] => []
  | t :: ts => t.number first parent ++ numberAll (first + t.size) parent ts

end

mutual

theorem length_number (first : Nat) (parent : Option String) :
    (t : FlowTree) → (t.number first parent).length = t.size
  | node _ cs => by
    simp [number, size, length_numberAll (first + 1) (some (nodeId first)) cs, Nat.add_comm]

theorem length_numberAll (first : Nat) (parent : Option String) :
    (ts : List FlowTree) → (numberAll first parent ts).length = sizeAll ts
  | [] => rfl
  | t :: ts => by
    simp [numberAll, sizeAll, length_number first parent t,
      length_numberAll (first + t.size) parent ts]

end

end FlowTree
end Flowchart
