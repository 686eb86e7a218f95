import Flowchart.Platform.Names
import Flowchart.Script.Tree

/-! Labels of calls, and which calls and instantiations use the platform. -/
namespace Flowchart

/-- Function values. The keyword token has the type name of one of them but is not named. -/
def Tree.isFunction (t : Tree) : Bool :=
  t.named &&
    ["function_expression", "function", "arrow_function", "generator_function"].contains t.type

namespace Platform

/-- The types of names. -/
def nameTypes : List String :=
  ["property_identifier", "private_property_identifier", "identifier"]

/-- The name that a property or an index spells out, empty for any other expression. -/
def propertyName (src : Source) : Option Tree → String
  | none => ""
  | some t =>
    if t.type = "string" then
      .ofList ((t.namedChildren.filter (·.type = "string_fragment")).flatMap (src.charsOf ·.span))
    else if nameTypes.contains t.type then src.textOf t.span
    else ""

/-- The receiver and the method name of `a.b` and `a['b']`. -/
def memberParts (src : Source) (callee : Tree) : Option (Tree × String) :=
  if callee.type = "member_expression" then
    (callee.field? "object").map (·, propertyName src (callee.field? "property"))
  else if callee.type = "subscript_expression" then
    (callee.field? "object").map (·, propertyName src (callee.field? "index"))
  else none

def identifierName? (src : Source) (t : Tree) : Option String :=
  if t.type = "identifier" then some (src.textOf t.span) else none

/-- The callee of a call, without parentheses around it. -/
def callee? (call : Tree) : Option Tree :=
  (call.field? "function").bind Tree.unwrap

/-- How a label shows the receiver of a method call. -/
def receiverLabel (src : Source) (receiver : Tree) : String :=
  match receiver.unwrap with
  | none => "?"
  | some t =>
    if ["identifier", "this"].contains t.type then src.textOf t.span
    else if t.type = "call_expression" then "..."
    else "?"

/-- The label of a call whose callee cannot be named. -/
def unnamedCall : String := "call()"

def calleeLabel (src : Source) (callee : Tree) : String :=
  match memberParts src callee with
  | some (receiver, method) =>
    receiverLabel src receiver ++ "." ++ (if method = "" then "?" else method) ++ "()"
  | none => if callee.type = "identifier" then src.textOf callee.span ++ "()" else unnamedCall

/-- A label such as `obj.method()` or `name()`. -/
def callLabel (src : Source) (call : Tree) : String :=
  (callee? call).elim unnamedCall (calleeLabel src)

/-- What a method call is for: the record methods decide first, then the receiver, then the
other methods. -/
def methodCategory (src : Source) (receiver : Tree) (method : String) : Option Category :=
  ((categoryIn recordMethods method).or
    ((receiver.unwrap.bind (identifierName? src)).bind (receivers.lookup ·))).or
    (categoryIn methodTables method)

structure CallInfo where
  label : String
  category : Category
  deriving DecidableEq, Repr

/-- The label and the category of a platform call, nothing for any other expression. -/
def classify (src : Source) (call : Tree) : Option CallInfo :=
  if call.type = "call_expression" then do
    let (receiver, method) ← (callee? call).bind (memberParts src)
    let category ← methodCategory src receiver method
    return ⟨callLabel src call, category⟩
  else none

def isPlatformCall (src : Source) (call : Tree) : Bool :=
  (classify src call).isSome

/-- The constructor of a `new` expression, without parentheses around it. -/
def constructor? (t : Tree) : Option Tree :=
  (t.field? "constructor").bind Tree.unwrap

/-- The platform class that a constructor names, alone or inside a namespace. -/
def constructedClass (src : Source) (ctor : Tree) : Option String :=
  if ctor.type = "identifier" then
    let name := src.textOf ctor.span
    if classes.contains name then some name else none
  else if ctor.type = "member_expression" then
    let space := ((ctor.field? "object").bind (identifierName? src)).getD ""
    let name := propertyName src (ctor.field? "property")
    if namespaces.contains space || classes.contains name then
      some (if name = "" then space else name)
    else none
  else none

/-- The platform class that a `new` expression makes an instance of. -/
def classOf (src : Source) (t : Tree) : Option String :=
  if t.type = "new_expression" then (constructor? t).bind (constructedClass src) else none

end Platform
end Flowchart
