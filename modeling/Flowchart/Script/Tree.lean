import Flowchart.Script.Source

/-! Syntax trees. Any type names, fields, spans and flags may occur. -/
namespace Flowchart

/-- What a tree node says about itself. `field` is its role in its parent. -/
structure Mark where
  type : String
  named : Bool
  missing : Bool
  damaged : Bool
  span : Span
  field : Option String
  deriving DecidableEq, Repr, Inhabited

inductive Tree where
  | node (mark : Mark) (children : List Tree)
  deriving Repr, Inhabited

namespace Tree

def mark : Tree → Mark
  | node m _ => m

def children : Tree → List Tree
  | node _ cs => cs

def type (t : Tree) : String := t.mark.type

def named (t : Tree) : Bool := t.mark.named

def span (t : Tree) : Span := t.mark.span

/-- The first child in the role `name`. -/
def field? (t : Tree) (name : String) : Option Tree :=
  t.children.find? (·.mark.field = some name)

/-- All children in the role `name`. -/
def fields (t : Tree) (name : String) : List Tree :=
  t.children.filter (·.mark.field = some name)

def namedChildren (t : Tree) : List Tree :=
  t.children.filter (·.named)

/-- Named nodes other than comments. -/
def isStatement (t : Tree) : Bool :=
  t.named && t.type ≠ "comment"

def statements (t : Tree) : List Tree :=
  t.children.filter (·.isStatement)

def firstStatement? (t : Tree) : Option Tree :=
  t.children.find? (·.isStatement)

/-- The first anonymous child of one of the given types, as its type. -/
def operator? (t : Tree) (choices : List String) : Option String :=
  (t.children.find? fun c => !c.named && choices.contains c.type).map (·.type)

def parenthesized : String := "parenthesized_expression"

mutual

/-- The expression inside any number of parentheses; empty parentheses hold none. -/
def unwrap : Tree → Option Tree
  | node m cs => if m.type = parenthesized then unwrapFirst cs else some (node m cs)

/-- What the first statement among the nodes unwraps to. -/
def unwrapFirst : List Tree → Option Tree
  | [] => none
  | c :: cs => if c.isStatement then c.unwrap else unwrapFirst cs

end

mutual

def size : Tree → Nat
  | node _ cs => 1 + sizeAll cs

def sizeAll : List Tree → Nat
  | [] => 0
  | c :: cs => c.size + sizeAll cs

end

theorem size_eq (t : Tree) : t.size = 1 + sizeAll t.children := by
  cases t with
  | node m cs => rfl

theorem sizeAll_append (ts us : List Tree) : sizeAll (ts ++ us) = sizeAll ts + sizeAll us := by
  induction ts with
  | nil => rw [List.nil_append, sizeAll, Nat.zero_add]
  | cons t ts ih => rw [List.cons_append, sizeAll, sizeAll, ih, Nat.add_assoc]

mutual

/-- The node and all below it, parents first and children in order. -/
def preorder : Tree → List Tree
  | node m cs => node m cs :: preorderAll cs

def preorderAll : List Tree → List Tree
  | [] => []
  | c :: cs => c.preorder ++ preorderAll cs

end

/-- The node at a path of child positions. A negative one counts from the last child. -/
def descend : List Int → Tree → Option Tree
  | [], t => some t
  | i :: path, t => t.children[Text.position t.children i]?.bind (descend path)

end Tree
end Flowchart
