import Flowchart.Text.Blank
import Flowchart.Text.Lines

/-! A check of Mermaid texts: every line is a box or an edge, and edges join boxes that stand
before them. -/
namespace Flowchart.Mermaid

/-- Why a text is not accepted. -/
inductive Problem where
  | empty
  | noHeader
  | htmlEntity
  | severalEdges
  | undeclared (id : List Char)
  | unrecognised (line : List Char)
  deriving DecidableEq, Repr

def Problem.message : Problem → String
  | empty => "Empty flowchart"
  | noHeader => "Missing flowchart declaration"
  | htmlEntity => "HTML entities detected (use #40; style codes instead)"
  | severalEdges => "Multiple edges in one line"
  | undeclared id => "Edge references undeclared node " ++ .ofList id
  | unrecognised line => "Unrecognised line: " ++ .ofList (line.take 60)

def isIdentStart (c : Char) : Bool :=
  c.isAlpha || c = '_'

def isIdentChar (c : Char) : Bool :=
  c.isAlphanum || c = '_'

/-- An identifier at the start of a text, and what follows it. -/
def ident? : List Char → Option (List Char × List Char)
  | [] => none
  | c :: r =>
    if isIdentStart c then some (c :: r.takeWhile isIdentChar, r.dropWhile isIdentChar) else none

/-- What follows one or more blanks. -/
def afterBlanks? : List Char → Option (List Char)
  | [] => none
  | c :: r => if Text.isBlank c then some (r.dropWhile Text.isBlank) else none

def solidArrow : List Char := "-->".toList

def dottedArrow : List Char := "-.->".toList

/-- What follows an arrow, and whether the arrow is dotted. -/
def afterArrow? : List Char → Option (Bool × List Char)
  | '-' :: '-' :: '>' :: r => some (false, r)
  | '-' :: '.' :: '-' :: '>' :: r => some (true, r)
  | _ => none

/-- What follows an optional label between bars and the blanks after it. -/
def afterEdgeLabel? : List Char → Option (List Char)
  | '|' :: r =>
    match r.dropWhile (· ≠ '|') with
    | _ :: r => afterBlanks? r
    | [] => none
  | s => some s

structure EdgeLine where
  source : List Char
  dotted : Bool
  target : List Char
  deriving DecidableEq, Repr

/-- Reads a line as an edge. -/
def readEdge? (line : List Char) : Option EdgeLine := do
  let (source, r) ← ident? line
  let (dotted, r) ← afterArrow? (← afterBlanks? r)
  let (target, r) ← ident? (← afterEdgeLabel? (← afterBlanks? r))
  if r.isEmpty then some ⟨source, dotted, target⟩ else none

/-- Reads the start of a line as a box: its id, and whether it is a decision. -/
def readNode? (line : List Char) : Option (List Char × Bool) :=
  match ident? line with
  | some (id, '\x7b' :: '\x7b' :: _) => some (id, true)
  | some (id, '[' :: _) => some (id, false)
  | _ => none

/-- How often `word` occurs in a text, overlapping occurrences included. -/
def occurrences (word : List Char) : List Char → Nat
  | [] => 0
  | c :: r => (if word.isPrefixOf (c :: r) then 1 else 0) + occurrences word r

/-- Checks the lines after the header, given the ids of the boxes seen so far. -/
def checkLines (declared : List (List Char)) : List (List Char) → Except Problem Unit
  | [] => .ok ()
  | line :: rest =>
    if 1 < occurrences solidArrow line + occurrences dottedArrow line then .error .severalEdges
    else
      match readEdge? line with
      | some e =>
        if !declared.contains e.source then .error (.undeclared e.source)
        else if !declared.contains e.target then .error (.undeclared e.target)
        else checkLines declared rest
      | none =>
        match readNode? line with
        | some (id, _) => checkLines (id :: declared) rest
        | none => .error (.unrecognised line)

/-- Accepts a text or tells the first problem. -/
def check (text : String) : Except Problem Unit :=
  match Text.lines (Text.trim text.toList) with
  | [] => .error .empty
  | first :: rest =>
    if !"flowchart".toList.isPrefixOf (first.map Char.toLower) then .error .noHeader
    else if 0 < occurrences "&#".toList text.toList then .error .htmlEntity
    else checkLines [] rest

end Flowchart.Mermaid
