import Flowchart.Diagram.Edge

/-! Colours and lines of a diagram. -/
namespace Flowchart

structure Style where
  background : String
  border : String
  color : String
  shape : Option String := none
  deriving DecidableEq, Repr, Inhabited

namespace Style

/-- A box with a background that runs from one colour to another. -/
def gradient (first last border : String) (color : String) : Style where
  background := "linear-gradient(135deg, " ++ first ++ " 0%, " ++ last ++ " 100%)"
  border := border
  color := color

def white : String := "#ffffff"

def ofKind : NodeKind → Style
  | .function => gradient "#7c3aed" "#4f46e5" "#7c3aed" white
  | .condition => { gradient "#f59e0b" "#d97706" "#f59e0b" white with shape := "diamond" }
  | .loop => gradient "#06b6d4" "#0891b2" "#06b6d4" white
  | .switch => gradient "#8b5cf6" "#7c3aed" "#8b5cf6" white
  | .caseClause => gradient "#a78bfa" "#8b5cf6" "#a78bfa" white
  | .tryStmt => gradient "#3b82f6" "#2563eb" "#3b82f6" white
  | .catchClause => gradient "#ef4444" "#dc2626" "#ef4444" white
  | .finallyClause => gradient "#64748b" "#475569" "#64748b" white
  | .returnStmt => gradient "#22c55e" "#16a34a" "#22c55e" white
  | .throwStmt => gradient "#ef4444" "#b91c1c" "#ef4444" white
  | .breakStmt => gradient "#f97316" "#ea580c" "#f97316" white
  | .continueStmt => gradient "#14b8a6" "#0d9488" "#14b8a6" white
  | .platformCall => gradient "#00d4aa" "#10b981" "#00d4aa" white
  | .assignment => gradient "#6366f1" "#4f46e5" "#6366f1" white
  | .varDecl => gradient "#475569" "#334155" "#475569" "#cbd5e1"
  | .genericCall => gradient "#4b5563" "#374151" "#4b5563" "#d1d5db"
  | .genericAssignment => gradient "#525252" "#404040" "#525252" "#d4d4d8"
  | .branch => ⟨"transparent", "transparent", "#9898b0", none⟩

/-- Instances of platform classes stand out from other variables. -/
def platformInstance : Style :=
  gradient "#00d4aa" "#059669" "#00d4aa" white

/-- For what has no style of its own. -/
def plain : Style :=
  gradient "#374151" "#1f2937" "#374151" white

def ofEntry (e : Entry) : Style :=
  if e.isPlatformInstance then platformInstance else ofKind e.kind

end Style

structure LineStyle where
  stroke : String
  width : Nat := 2
  animated : Bool := false
  dashes : Option String := none
  deriving DecidableEq, Repr, Inhabited

def EdgeClass.style : EdgeClass → LineStyle
  | sequential => { stroke := "#4a4a6a" }
  | onTrue => { stroke := "#22c55e" }
  | onFalse => { stroke := "#ef4444" }
  | loopBody => { stroke := "#06b6d4", animated := true }
  | exceptionPath => { stroke := "#ef4444", dashes := "5,5" }

end Flowchart
