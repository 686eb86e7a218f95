import Flowchart.Flow.Node
import Flowchart.Platform.Call

/-! What each statement of a script contributes to its outline. -/
namespace Flowchart

/-- A part of an outline: a node with its own parts, or a tree that is still to be outlined,
with the name that a function without one takes there. -/
inductive Plan where
  | visit (name : Option String) (t : Tree)
  | node (entry : Entry) (parts : List Plan)
  deriving Repr

/-- How a statement is treated. -/
inductive Construct where
  | block
  | function
  | declaration
  | conditional
  | switch
  | whileLoop
  | doLoop
  | forLoop
  | forInLoop
  | tryBlock
  | exit (kind : NodeKind)
  | jump (kind : NodeKind)
  | labeled
  | expression
  | silent
  deriving DecidableEq, Repr

/-- The constructs that a type name alone decides. -/
def constructs : List (String × Construct) := [
  ("program", .block), ("statement_block", .block),
  ("function_declaration", .function), ("generator_function_declaration", .function),
  ("lexical_declaration", .declaration), ("variable_declaration", .declaration),
  ("if_statement", .conditional), ("switch_statement", .switch),
  ("while_statement", .whileLoop), ("do_statement", .doLoop),
  ("for_statement", .forLoop), ("for_in_statement", .forInLoop),
  ("try_statement", .tryBlock),
  ("return_statement", .exit .returnStmt), ("throw_statement", .exit .throwStmt),
  ("break_statement", .jump .breakStmt), ("continue_statement", .jump .continueStmt),
  ("labeled_statement", .labeled), ("expression_statement", .expression)]

/-- Function values are functions wherever they stand; what is in no table contributes nothing. -/
def Tree.construct (t : Tree) : Construct :=
  if t.isFunction then .function else (constructs.lookup t.type).getD .silent

/-- An entry of which only kind, label and place are known. -/
def Entry.over (src : Source) (kind : NodeKind) (label : String) (s : Span) : Entry :=
  { kind, label, range := src.range s, loc := src.locRange s }

namespace Source

/-- The excerpt of an optional part of a construct. -/
def excerptOf (src : Source) (t : Option Tree) (limit : Int) : String :=
  t.elim placeholder (src.excerpt ·.span limit)

end Source

namespace Plan

/-! Lengths, in characters, of the excerpts that labels show. -/

def signatureLimit : Int := 60

def conditionLimit : Int := 30

def discriminantLimit : Int := 25

def caseTestLimit : Int := 20

def forHeaderLimit : Int := 40

def iterableLimit : Int := 25

def argumentLimit : Int := 30

def targetLimit : Int := 15

/-- The outline of an optional part. -/
def visits (t : Option Tree) : List Plan :=
  t.toList.map (visit none)

/-- From the start of `s` to the body of a construct, or to the end of `s` if it has no body. -/
def headSpan (s : Span) (body : Option Tree) : Span :=
  ⟨s.start, body.elim s.stop (·.span.start)⟩

/-! Functions and declarations. -/

/-- What stands before the body of a function. -/
def signature (src : Source) (s : Span) (fn : Tree) : String :=
  .ofList (Text.clip Source.snippetLimit
    (src.head (headSpan s (fn.field? "body")) signatureLimit).toList)

/-- The label of a function; `default` names one that has no name of its own. -/
def functionLabel (src : Source) (fn : Tree) (default : String) : String :=
  "function " ++ (fn.field? "name").elim default (src.textOf ·.span) ++ "()"

def anonymous : String := "anonymous"

/-- A function. Without a name of its own it takes the given one, unless that is empty. -/
def function (src : Source) (name : Option String) (fn : Tree) : Plan :=
  let label := functionLabel src fn ((name.filter (· ≠ "")).getD anonymous)
  node { Entry.over src .function label fn.span with snippet := signature src fn.span fn }
    (visits (fn.field? "body"))

/-- The name of a function that is called where it is written. -/
def immediateName : String := "executeRule"

/-- A function called where it is written. The node covers the statement and points at the
function; only a block is outlined as its body. -/
def immediate (src : Source) (stmt fn : Tree) : Plan :=
  node
    { Entry.over src .function (functionLabel src fn immediateName) stmt.span with
      loc := src.locRange fn.span
      snippet := signature src stmt.span fn }
    (visits ((fn.field? "body").filter (·.type = "statement_block")))

/-- A variable that holds `value`: an instance of a platform class, a function, or anything else. -/
def declared (src : Source) (stmt declarator value : Tree) : Plan :=
  let name := ((declarator.field? "name").filter (·.type = "identifier")).elim
    Source.placeholder (src.textOf ·.span)
  match Platform.classOf src value with
  | some cls =>
    let ctor := (Platform.constructor? value).elim cls (src.excerpt ·.span conditionLimit)
    node
      { Entry.over src .varDecl ("new " ++ ctor ++ "()") stmt.span with
        snippet := src.snippet stmt.span
        subtype := cls }
      []
  | none =>
    if value.isFunction then function src name value
    else
      let word := stmt.children.head?.elim "var" (·.type)
      node
        { Entry.over src .varDecl (word ++ " " ++ name) stmt.span with
          detail := src.snippet stmt.span
          snippet := src.snippet stmt.span }
        []

/-- One part for each variable of a declaration that has a value. -/
def declaration (src : Source) (stmt : Tree) : List Plan :=
  (stmt.namedChildren.filter (·.type = "variable_declarator")).filterMap fun declarator =>
    ((declarator.field? "value").bind Tree.unwrap).map (declared src stmt declarator)

/-! Conditionals. -/

/-- A node whose label is also its detail and its snippet. -/
def labeledEntry (src : Source) (kind : NodeKind) (label : String) (t : Tree) : Entry :=
  { Entry.over src kind label t.span with detail := label, snippet := label }

def condition? (t : Tree) : Option Tree :=
  (t.field? "condition").bind Tree.unwrap

def conditionEntry (src : Source) (t : Tree) : Entry :=
  labeledEntry src .condition ("if (" ++ src.excerptOf (condition? t) conditionLimit ++ ")") t

def branchEntry (src : Source) (branch : Branch) (arm : Tree) : Entry :=
  { Entry.over src .branch branch.name arm.span with branch }

/-- The arm of a condition, below a node of its own. -/
def arm (src : Source) (branch : Branch) (t : Tree) : Plan :=
  node (branchEntry src branch t) [visit none t]

/-- What stands after `else`. -/
def alternative? (t : Tree) : Option Tree :=
  (t.field? "alternative").bind fun a => if a.type = "else_clause" then a.firstStatement? else a

def trueArm (src : Source) (t : Tree) : List Plan :=
  (t.field? "consequence").toList.map (arm src .onTrue)

/-- A conditional with up to `rungs` conditionals that follow it as `else if`, each in the false
arm of the one before. -/
def ladder (src : Source) : Nat → Tree → Plan
  | 0, t => node (conditionEntry src t) (trueArm src t)
  | rungs + 1, t =>
    node (conditionEntry src t) (trueArm src t ++
      match alternative? t with
      | none => []
      | some a =>
        if a.type = "if_statement" then [node (branchEntry src .onFalse a) [ladder src rungs a]]
        else [arm src .onFalse a])

/-- The test of a clause; a default clause has none. -/
def clauseTest? (clause : Tree) : Option Tree :=
  if clause.type = "switch_case" then clause.field? "value" else none

/-- The statements of a clause: its body, or all of it but the test. -/
def clauseStatements (clause : Tree) : List Tree :=
  match clause.fields "body" with
  | [] =>
    let skip := (clauseTest? clause).map (·.span)
    clause.statements.filter (some ·.span ≠ skip)
  | body => body

def clause (src : Source) (t : Tree) : Plan :=
  let label := (clauseTest? t).elim "default" fun test =>
    "case " ++ src.excerpt test.span caseTestLimit
  node (Entry.over src .caseClause label t.span) ((clauseStatements t).map (visit none))

def clauses (t : Tree) : List Tree :=
  (t.field? "body").elim [] fun body =>
    body.statements.filter fun c => ["switch_case", "switch_default"].contains c.type

def switch (src : Source) (t : Tree) : Plan :=
  let value := (t.field? "value").bind Tree.unwrap
  node
    (labeledEntry src .switch ("switch (" ++ src.excerptOf value discriminantLimit ++ ")") t)
    ((clauses t).map (clause src))

/-! Loops. -/

def loop (src : Source) (word label : String) (t : Tree) : Plan :=
  node { labeledEntry src .loop label t with subtype := word } (visits (t.field? "body"))

/-- A loop on a condition, introduced by `word`. -/
def whileLoop (src : Source) (word : String) (t : Tree) : Plan :=
  loop src word (word ++ " (" ++ src.excerptOf (condition? t) conditionLimit ++ ")") t

def forInLoop (src : Source) (t : Tree) : Plan :=
  let word := (t.operator? ["in", "of"]).getD "in"
  let right := src.excerptOf (t.field? "right") iterableLimit
  loop src "for" ("for (... " ++ word ++ " " ++ right ++ ")") t

def forLoop (src : Source) (t : Tree) : Plan :=
  loop src "for" (src.excerpt (headSpan t.span (t.field? "body")) forHeaderLimit) t

/-! Exceptions and jumps. -/

def catchPlan (src : Source) (handler : Tree) : Plan :=
  let body := handler.field? "body"
  let name := ((handler.field? "parameter").filter (·.type = "identifier")).elim "e"
    (src.textOf ·.span)
  node
    { Entry.over src .catchClause ("catch (" ++ name ++ ")") handler.span with
      snippet := src.snippet (headSpan handler.span body) }
    (visits body)

def finallyPlan (src : Source) (finalizer : Tree) : Plan :=
  let block := (finalizer.field? "body").getD finalizer
  node (Entry.over src .finallyClause "finally" block.span) [visit none block]

/-- The body of a try statement, then its handler, then its finalizer. -/
def tryBlock (src : Source) (t : Tree) : Plan :=
  node { Entry.over src .tryStmt "try" t.span with snippet := "try \x7b ... \x7d" }
    (visits (t.field? "body") ++ (t.field? "handler").toList.map (catchPlan src) ++
      (t.field? "finalizer").toList.map (finallyPlan src))

/-- A label of a keyword and what may follow it. -/
def wordLabel (word : String) (operand : Option String) : String :=
  operand.elim word (word ++ " " ++ ·)

def exit (src : Source) (kind : NodeKind) (t : Tree) : Plan :=
  let label := wordLabel kind.name (t.firstStatement?.map (src.excerpt ·.span argumentLimit))
  node { Entry.over src kind label t.span with snippet := src.snippet t.span } []

def jump (src : Source) (kind : NodeKind) (t : Tree) : Plan :=
  node (Entry.over src kind (wordLabel kind.name ((t.field? "label").map (src.textOf ·.span)))
    t.span) []

/-! Expression statements. -/

/-- An operation without parts. Its snippet is the whole statement. -/
def operation (src : Source) (kind : NodeKind) (label : String) (stmt : Tree) : Entry :=
  { Entry.over src kind label stmt.span with snippet := src.snippet stmt.span }

/-- An operation whose detail is the whole statement, too. -/
def detailed (src : Source) (kind : NodeKind) (label : String) (stmt : Tree) : Entry :=
  { operation src kind label stmt with detail := src.snippet stmt.span }

def callPlan (src : Source) (stmt call : Tree) : Plan :=
  match (Platform.callee? call).filter Tree.isFunction with
  | some fn => immediate src stmt fn
  | none =>
    match Platform.classify src call with
    | some info =>
      node { detailed src .platformCall info.label stmt with subtype := info.category.name } []
    | none => node (detailed src .genericCall (Platform.callLabel src call) stmt) []

/-- An assignment names the call on its right only if it is a platform call. -/
def assignment (src : Source) (stmt expr : Tree) : Plan :=
  let left := src.excerptOf (expr.field? "left") targetLimit
  let word := (expr.field? "operator").elim "=" (src.textOf ·.span)
  match ((expr.field? "right").bind Tree.unwrap).filter (Platform.isPlatformCall src) with
  | some call =>
    let right := Platform.callLabel src call
    node (detailed src .assignment (left ++ " " ++ word ++ " " ++ right) stmt) []
  | none => node (detailed src .genericAssignment (left ++ " " ++ word ++ " ...") stmt) []

/-- An increment or decrement, the operator first when the expression begins with a token. -/
def update (src : Source) (stmt expr : Tree) : Plan :=
  let argument := expr.field? "argument"
  let target := match argument.filter (·.type = "identifier") with
    | some t => src.textOf t.span
    | none => src.excerptOf argument targetLimit
  let word := match expr.field? "operator" with
    | some t => src.textOf t.span
    | none => (expr.operator? ["++", "--"]).getD "++"
  let inFront := expr.children.head?.any (!·.named)
  let label := if inFront then word ++ target else target ++ word
  node (operation src .genericAssignment label stmt) []

/-- Calls, assignments and updates; any other expression contributes nothing. -/
def expression (src : Source) (stmt : Tree) : List Plan :=
  match stmt.firstStatement?.bind Tree.unwrap with
  | none => []
  | some expr =>
    if expr.type = "call_expression" then [callPlan src stmt expr]
    else if ["assignment_expression", "augmented_assignment_expression"].contains expr.type then
      [assignment src stmt expr]
    else if expr.type = "update_expression" then [update src stmt expr]
    else []

/-- The parts of the outline that one statement gives rise to. -/
def ofTree (src : Source) (name : Option String) (t : Tree) : List Plan :=
  match t.construct with
  | .block => t.statements.map (visit none)
  | .function => [function src name t]
  | .declaration => declaration src t
  | .conditional => [ladder src t.size t]
  | .switch => [switch src t]
  | .whileLoop => [whileLoop src "while" t]
  | .doLoop => [whileLoop src "do-while" t]
  | .forLoop => [forLoop src t]
  | .forInLoop => [forInLoop src t]
  | .tryBlock => [tryBlock src t]
  | .exit kind => [exit src kind t]
  | .jump kind => [jump src kind t]
  | .labeled => visits (t.field? "body")
  | .expression => expression src t
  | .silent => []

end Plan
end Flowchart
