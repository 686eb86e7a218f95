import Flowchart.Flow.Node
import Flowchart.Text.Points

/-! Descriptions of functions by a language model. A code is asked about until the model answers,
and its answer is then kept. What is logged on the way may turn out not to be showable. -/
namespace Flowchart

/-- What comes back from the model: a text, nothing, or a failure. -/
inductive Reply where
  | content (text : Option WideText)
  | failure (message : WideText)
  deriving DecidableEq, Repr

/-- Why a line cannot be shown, if it cannot. -/
abbrev Output := WideText → Option String

/-- Nothing is shown of the log, so that nothing stands in its way. -/
def Output.off : Output :=
  fun _ => none

/-- Lines are shown in UTF-8. -/
def Output.utf8 : Output := fun line =>
  match line.encode with
  | .ok _ => none
  | .error e => some (e.message e.before.length)

theorem Output.utf8_ofString (s : String) : Output.utf8 s = none := by
  rw [Output.utf8, WideText.encode_ofString]

/-- The model and how it is to answer. The two thresholds are counted in tenths. -/
structure ModelSettings where
  /-- The name of the model; none when it was given no name. -/
  model : Option String
  temperatureTenths : Nat := 1
  topK : Nat := 10
  topPTenths : Nat := 9
  deriving DecidableEq, Repr

/-- The answers known so far by trimmed code, and the replies that the model has still to give. -/
structure Describer where
  known : List (String × WideText) := []
  replies : List Reply := []
  deriving Repr

/-- What a description took: the questions put to the model and the lines logged. -/
structure Transcript where
  prompts : List String := []
  log : List WideText := []
  deriving DecidableEq, Repr

instance : Append Transcript where
  append a b := ⟨a.prompts ++ b.prompts, a.log ++ b.log⟩

def trimmed (s : String) : String :=
  .ofList (Text.trim s.toList)

namespace Describer

/-- How much of a code the model is shown. -/
def codeLimit : Nat := 6000

def prompt (code : String) : String :=
  "You are a ServiceNow JavaScript documentation expert.\n" ++
  "Provide a concise 2-3 sentence description of what this function does.\n" ++
  "Do not invent anything that is not in the code.\n\n" ++
  "Function:\n" ++ .ofList (code.toList.take codeLimit) ++ "\nDescription:"

/-- Time is not measured. -/
def elapsed : String := "0.000s"

/-- The line that shows a question before it is put. -/
def promptLine (key : String) : WideText :=
  .ofString ("[LLM] Description prompt:\n" ++ prompt key)

def completionLine : WideText :=
  .ofString ("[LLM] Description completed in " ++ elapsed)

/-- The line about a failure. Of its message not more than the beginning is shown. -/
def failureLine (message : WideText) : WideText :=
  "[WARN] LLM description failed: " ++ message.take 200

/-- The reply of a model that gives no more replies. -/
def exhausted : Reply :=
  .failure "no reply left"

/-- Puts a question to the model. -/
def ask (d : Describer) : Reply × Describer :=
  (d.replies.headD exhausted, { d with replies := d.replies.tail })

/-- Keeps the answer for a code that had none. -/
def learn (d : Describer) (key : String) (answer : WideText) : Describer :=
  { d with known := d.known ++ [(key, answer)] }

/-- Tells of a failure, for which there is an empty answer. A line about it that cannot be shown is
a fault of its own. -/
def warn (output : Output) (d : Describer) (t : Transcript) (message : WideText) :
    Except String WideText × Describer × Transcript :=
  let line := failureLine message
  match output line with
  | none => (.ok [], d, { t with log := t.log ++ [line] })
  | some fault => (.error fault, d, t)

/-- The description of a code. A blank code has none, and a failure gives none for now. It counts as
a failure when the line with the question, or the one on the reply, cannot be shown: the question is
then not put, or the reply is lost. -/
def describe (output : Output) (d : Describer) (code : String) :
    Except String WideText × Describer × Transcript :=
  let key := trimmed code
  if key = "" then (.ok [], d, {})
  else
    match d.known.lookup key with
    | some answer => (.ok answer, d, {})
    | none =>
      match output (promptLine key) with
      | some fault => d.warn output {} fault
      | none =>
        let t : Transcript := ⟨[prompt key], [promptLine key]⟩
        match d.ask with
        | (.failure message, d) => d.warn output t message
        | (.content text, d) =>
          match output completionLine with
          | some fault => d.warn output t fault
          | none =>
            let answer := (text.getD []).trim
            (.ok answer, d.learn key answer, { t with log := t.log ++ [completionLine] })

end Describer

/-- Descriptions by node id, in the order in which the ids were first described. -/
abbrev Descriptions := List (String × WideText)

/-- Sets the description of an id, in the place that it already has. -/
def Descriptions.put (id : String) (text : WideText) : Descriptions → Descriptions
  | [] => [(id, text)]
  | (id', text') :: rest =>
    if id' = id then (id, text) :: rest else (id', text') :: Descriptions.put id text rest

namespace Describer

/-- The characters of a range. -/
def codeOf (text : List Char) (r : CharRange) : String :=
  .ofList (Text.slice r.start r.stop text)

/-- Describes every function among the nodes, on top of what is described already, until there is a
fault. -/
def describeOnto (output : Output) (d : Describer) (text : List Char) (done : Descriptions) :
    List FlowNode → Except String Descriptions × Describer × Transcript
  | [] => (.ok done, d, {})
  | n :: rest =>
    if n.kind = .function then
      match d.describe output (codeOf text n.range) with
      | (.error fault, d, t) => (.error fault, d, t)
      | (.ok answer, d, first) =>
        let (described, d, later) := describeOnto output d text (done.put n.id answer) rest
        (described, d, first ++ later)
    else describeOnto output d text done rest

def describeFunctions (output : Output) (d : Describer) (text : List Char)
    (nodes : List FlowNode) : Except String Descriptions × Describer × Transcript :=
  d.describeOnto output text [] nodes

end Describer
end Flowchart
