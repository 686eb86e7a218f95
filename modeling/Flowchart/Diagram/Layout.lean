import Flowchart.Flow.Node

/-! Positions of flow nodes: statements stack below their parent, the arms of a condition stand
to its left and right. Heights and positions are found in two passes, each on a stack of its own. -/
namespace Flowchart

structure Position where
  x : Int
  y : Int
  deriving DecidableEq, Repr, Inhabited

namespace Layout

def boxWidth : Nat := 200

def boxHeight : Nat := 50

def gap : Nat := 60

/-- The height of a row: a box and the gap below it. -/
def rowHeight : Nat := boxHeight + gap

/-- How far an arm stands beside its condition. -/
def armOffset : Int := 120

/-- Where the first root stands. -/
def origin : Position := ⟨300, 50⟩

def childIds (nodes : List FlowNode) (id : String) : List String :=
  (FlowNode.childrenOf nodes id).map (·.id)

def isBranch (nodes : List FlowNode) (id : String) : Bool :=
  (FlowNode.withId? nodes id).any (·.kind = .branch)

/-- A false arm stands on the left, and so does a second arm. -/
def armShift (nodes : List FlowNode) (index : Nat) (id : String) : Int :=
  if (FlowNode.withId? nodes id).any (·.branch = some .onFalse) || index = 1 then -armOffset
  else armOffset

/-- The ids drawn below a node, by column: one column for each of its branches, which are not
drawn themselves, or else a single column of its children. -/
def columns (nodes : List FlowNode) (id : String) : List (Int × List String) :=
  let children := childIds nodes id
  match children.filter (isBranch nodes) with
  | [] => [(0, children)]
  | arms => arms.mapIdx fun index arm => (armShift nodes index arm, childIds nodes arm)

def roots (nodes : List FlowNode) : List String :=
  (nodes.filter (·.parentLink.isNone)).map (·.id)

/-- The ids drawn right below a node, one column after the other. -/
def below (nodes : List FlowNode) (id : String) : List String :=
  (columns nodes id).flatMap (·.2)

/-- How many nodes are met on the ways down from a node, `depth` levels deep. -/
def waysDown (nodes : List FlowNode) : Nat → String → Nat
  | 0, _ => 1
  | depth + 1, id => 1 + ((below nodes id).map (waysDown nodes depth)).foldr (· + ·) 0

/-- The rounds of a loop that starts with some nodes on its stack. A way down without repetition
has no more levels than there are nodes. -/
def rounds (nodes : List FlowNode) (ids : List String) : Nat :=
  (ids.map (waysDown nodes nodes.length)).foldr (· + ·) 0

/-! Heights. The stacks have their top first, and the tables their newest entry. -/

/-- Visits what is on the stack and all below it, and lists it in front of `seen`, the last one
first. There is no result when the rounds run out. -/
def visit (nodes : List FlowNode) : Nat → List String → List String → Option (List String)
  | _, [], seen => some seen
  | 0, _ :: _, _ => none
  | rounds + 1, id :: stack, seen =>
    visit nodes rounds ((below nodes id).reverse ++ stack) (id :: seen)

/-- The height of a column, if all heights in it are known. -/
def columnHeight (heights : List (String × Nat)) : List String → Option Nat
  | [] => some 0
  | id :: ids => do
    let height ← heights.lookup id
    return height + (← columnHeight heights ids)

def tallestColumn (heights : List (String × Nat)) : List (Int × List String) → Option Nat
  | [] => some 0
  | (_, ids) :: columns => do
    let height ← columnHeight heights ids
    return max height (← tallestColumn heights columns)

/-- Adds the heights of some nodes one by one, each from the heights of what is below it. -/
def addHeights (nodes : List FlowNode) (heights : List (String × Nat)) :
    List String → Option (List (String × Nat))
  | [] => some heights
  | id :: ids => do
    let height ← tallestColumn heights (columns nodes id)
    addHeights nodes ((id, rowHeight + height) :: heights) ids

/-- The heights of all nodes that are reached from the roots, the last visited measured first. -/
def heights? (nodes : List FlowNode) : Option (List (String × Nat)) := do
  addHeights nodes [] (← visit nodes (rounds nodes (roots nodes)) (roots nodes).reverse [])

/-! Positions. -/

/-- The positions in a column whose first node stands at `top`. -/
def columnPositions (heights : List (String × Nat)) (top : Position) :
    List String → Option (List (String × Position))
  | [] => some []
  | id :: ids => do
    let height ← heights.lookup id
    return (id, top) :: (← columnPositions heights ⟨top.x, top.y + height⟩ ids)

/-- The positions in the columns below a node that stands at `p`. -/
def positionsBelow (heights : List (String × Nat)) (p : Position) :
    List (Int × List String) → Option (List (String × Position))
  | [] => some []
  | (shift, ids) :: columns => do
    let positions ← columnPositions heights ⟨p.x + shift, p.y + rowHeight⟩ ids
    return positions ++ (← positionsBelow heights p columns)

/-- Places what is pending and all below it, and lists it in front of `placed`. -/
def place (nodes : List FlowNode) (heights : List (String × Nat)) :
    Nat → List (String × Position) → List (String × Position) → Option (List (String × Position))
  | _, [], placed => some placed
  | 0, _ :: _, _ => none
  | rounds + 1, (id, p) :: pending, placed => do
    let next ← positionsBelow heights p (columns nodes id)
    place nodes heights rounds (next.reverse ++ pending) ((id, p) :: placed)

/-- Places roots one below the other with a gap between them, each with all below it. -/
def placeRoots (nodes : List FlowNode) (heights : List (String × Nat)) (top : Position)
    (placed : List (String × Position)) : List String → Option (List (String × Position))
  | [] => some placed
  | id :: ids => do
    let placed ← place nodes heights (rounds nodes [id]) [(id, top)] placed
    let height ← heights.lookup id
    placeRoots nodes heights ⟨top.x, top.y + height + gap⟩ placed ids

/-- All positions, the ones given out last first. -/
def positions? (nodes : List FlowNode) : Option (List (String × Position)) := do
  placeRoots nodes (← heights? nodes) origin [] (roots nodes)

/-- The positions in the order in which they are given out. -/
def placements (nodes : List FlowNode) : List (String × Position) :=
  ((positions? nodes).getD []).reverse

/-- The position of a node; the one given out last, if there are several. -/
def position? (nodes : List FlowNode) (id : String) : Option Position :=
  (placements nodes).reverse.lookup id

end Layout
end Flowchart
