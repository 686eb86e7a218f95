import Flowchart.Script.Tree
import Flowchart.Text.Quoted

/-! The first fault of a damaged tree. -/
namespace Flowchart

namespace Tree

/-- The node itself is an error or stands for something that is missing. -/
def isFault (t : Tree) : Bool :=
  t.type = "ERROR" || t.mark.missing

/-- The node itself is a fault or is marked as damaged. -/
def isMarked (t : Tree) : Bool :=
  t.isFault || t.mark.damaged

mutual

/-- The node or one below it is marked. -/
def hasFault : Tree → Bool
  | node m cs => (node m cs).isMarked || anyHasFault cs

def anyHasFault : List Tree → Bool
  | [] => false
  | c :: cs => c.hasFault || anyHasFault cs

end

/-- The first fault of the trees on a stack. A tree that is at no fault itself makes room for its
children if something in it is marked; else nothing in it is looked at. -/
def firstFaultOn : List Tree → Option Tree
  | [] => none
  | t :: stack =>
    if t.isFault then some t
    else if t.hasFault then firstFaultOn (t.children ++ stack)
    else firstFaultOn stack
termination_by stack => sizeAll stack
decreasing_by
  all_goals
    have hsize := t.size_eq
    simp only [sizeAll, sizeAll_append]
    omega

/-- The first fault in preorder, looked for only where something below is marked. -/
def firstFault? (t : Tree) : Option Tree :=
  firstFaultOn [t]

end Tree

/-- Why a script is refused. -/
inductive Fault where
  | unexpected
  | expected (type : String)
  deriving DecidableEq, Repr

structure ParseError where
  fault : Fault
  location : Location
  deriving DecidableEq, Repr

def Fault.message : Fault → String
  | unexpected => "Unexpected token"
  | expected type => "Expected " ++ Text.quote type

def ParseError.message (e : ParseError) : String :=
  e.fault.message ++ " (" ++ toString e.location.line ++ ":" ++ toString e.location.column ++ ")"

def Tree.fault (t : Tree) : Fault :=
  if t.mark.missing then .expected t.type else .unexpected

/-- Accepts a tree without marks. Otherwise the error is at the first fault, or at the root when
no single node is at fault. -/
def Tree.check (src : Source) (t : Tree) : Except ParseError Unit :=
  if t.hasFault then
    let bad := t.firstFault?.getD t
    .error ⟨bad.fault, src.location bad.span.start⟩
  else .ok ()

end Flowchart
