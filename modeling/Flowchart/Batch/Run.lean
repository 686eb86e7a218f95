import Flowchart.Batch.Files
import Flowchart.Batch.Options
import Flowchart.Chart

/-! A batch: every script below a path is charted, and its chart is written to a directory. A script
that fails is passed over. Whatever else goes wrong breaks the whole run off. -/
namespace Flowchart.Batch

/-- What a run relies on: a parser, room for the work on a tree, documents, and an output. -/
structure Host where
  /-- The tree of a text. -/
  parse : String → Tree
  /-- Why the nodes that a view shows of a text cannot be charted: its tree goes too deep. -/
  tooDeep? : View → String → Option String := fun _ _ => none
  /-- A text as a document holds it, or why no document can hold it. -/
  hold : String → Except String String := .ok
  /-- What the lines of a run are shown on. -/
  output : Output := fun _ => none

/-- What the lines on the progress of a run are shown on. -/
def Host.progress (host : Host) (o : Options) : Output :=
  if o.quiet then .off else host.output

/-- A line of output. A forced line is shown even when progress is not. -/
structure LogLine where
  text : WideText
  forced : Bool := false
  deriving DecidableEq, Repr

/-- Why a whole run breaks off. -/
inductive Abort where
  /-- A line cannot be shown. -/
  | line (fault : String)
  | tooDeep (message : String)
  /-- The line about a description that has failed cannot be shown. -/
  | description (fault : String)
  | unencodable (u : Unencodable)
  | report (message : String)
  | nullInPath
  deriving DecidableEq, Repr

def Abort.message : Abort → String
  | line fault => fault
  | tooDeep message => message
  | description fault => fault
  | unencodable u => u.message
  | report message => message
  | nullInPath => "embedded null byte"

/-- What there is to show for a script. -/
inductive Finding where
  | faulty (e : ParseError)
  | tooDeep (message : String)
  | noFlow
  | nothingShown
  | chart (c : Chart)

/-- Charts the text of a script. -/
def examine (host : Host) (view : View) (text : List Char) : Finding :=
  let t := host.parse (.ofList text)
  match t.check { text } with
  | .error e => .faulty e
  | .ok () =>
    match host.tooDeep? view (.ofList text) with
    | some message => .tooDeep message
    | none =>
      let nodes := extract { text } t
      if nodes.isEmpty then .noFlow
      else
        let shown := view.apply nodes
        if shown.isEmpty then .nothingShown else .chart (.ofNodes view shown)

/-- The warning that a finding calls for. -/
def Finding.warning? (view : View) (path : String) : Finding → Option String
  | faulty e => some ("[WARN] Parse error in " ++ path ++ ": " ++ e.message)
  | tooDeep _ => none
  | noFlow => some ("[WARN] No control flow structures found in " ++ path)
  | nothingShown =>
    some ("[WARN] No nodes to display in " ++ view.name ++ " view for " ++ path)
  | chart c => c.problem.map fun p =>
    "[WARN] Flowchart validation failed for " ++ path ++ ": " ++ p.message

/-- Line ends of all kinds become line feeds. -/
def unifyLineEnds : List Char → List Char
  | '\r' :: '\n' :: r => '\n' :: unifyLineEnds r
  | '\r' :: r => '\n' :: unifyLineEnds r
  | c :: r => c :: unifyLineEnds r
  | [] => []

/-- The text of a script; bytes that are not UTF-8 are left out. -/
def scriptText (bytes : List UInt8) : List Char :=
  unifyLineEnds (Utf8.decodeDropping bytes)

/-- Where a run stands: the files, the describer if there is one, and what was asked, logged and
done so far. -/
structure State where
  files : Files
  describer : Option Describer := none
  prompts : List String := []
  log : List LogLine := []
  done : Nat := 0

/-- How the work on a script ends. -/
inductive Outcome where
  | written
  | nothing
  | failed (e : FileError)
  | aborted (a : Abort)
  deriving DecidableEq, Repr

def State.say (s : State) (text : String) : State :=
  { s with log := s.log ++ [⟨text, false⟩] }

/-- Logs some lines and goes on, unless one of them cannot be shown. -/
def sayAll (output : Output) :
    List String → State → (State → State × Outcome) → State × Outcome
  | [], s, next => next s
  | line :: rest, s, next =>
    match output line with
    | some fault => (s, .aborted (.line fault))
    | none => sayAll output rest (s.say line) next

/-- The descriptions of functions, if there is a describer. -/
def describeBy (output : Output) (text : List Char) (nodes : List FlowNode) :
    Option Describer → Except String Descriptions × Option Describer × Transcript
  | none => (.ok [], none, {})
  | some d =>
    let (described, d, t) := d.describeFunctions output text nodes
    (described, some d, t)

/-- The state with what a description took. -/
def State.hear (s : State) (describer : Option Describer) (t : Transcript) : State :=
  { s with
    describer
    prompts := s.prompts ++ t.prompts
    log := s.log ++ t.log.map fun line => ⟨line, false⟩ }

/-- Writes files until one cannot be written. -/
def writeAll (fs : Files) : List (List Char × Content) → Files × Option FileError
  | [] => (fs, none)
  | (path, content) :: rest =>
    match fs.write path content with
    | .ok fs => writeAll fs rest
    | .error e => (fs, some e)

/-- A script as it was found: its path, and the name of its outputs. -/
structure Script where
  path : String
  base : String
  deriving DecidableEq, Repr

/-- The path of an output of a script. -/
def outputPath (o : Options) (script : Script) (extension : String) : List Char :=
  Path.under o.outDir.toList (script.base ++ extension).toList

/-- The outputs that every chart has. -/
def outputs (o : Options) (script : Script) (c : Chart) (descriptions : List (String × String)) :
    List (List Char × Content) := [
  (outputPath o script ".json", .text (c.toJson script.path descriptions).print),
  (outputPath o script ".mmd", .text c.mermaid)]

/-- The report of a chart, if one is asked for. -/
def reports (host : Host) (o : Options) (script : Script) (c : Chart)
    (descriptions : List (String × String)) : Except String (List (List Char × Content)) :=
  if o.docx then do
    let name : String := .ofList (Path.fileName script.path.toList)
    let blocks ← Report.blocks host.hold name c.nodes c.stats c.mermaid descriptions
    return [(outputPath o script ".docx", .document blocks)]
  else .ok []

/-- Writes the outputs of a chart and the report on it to a directory that is there. -/
def writeOutputs (host : Host) (o : Options) (script : Script) (c : Chart)
    (descriptions : List (String × String)) (fs : Files) : Files × Outcome :=
  match writeAll fs (outputs o script c descriptions) with
  | (fs, some e) => (fs, .failed e)
  | (fs, none) =>
    match reports host o script c descriptions with
    | .error message => (fs, .aborted (.report message))
    | .ok more =>
      match writeAll fs more with
      | (fs, some e) => (fs, .failed e)
      | (fs, none) => (fs, .written)

/-- Writes the first output of a chart up to the description that cannot be encoded. -/
def writeBeginning (o : Options) (script : Script) (c : Chart) (u : Unencodable) (fs : Files) :
    Files × Outcome :=
  match fs.write (outputPath o script ".json") (.text (c.printUpTo script.path u.before u.id)) with
  | .error e => (fs, .failed e)
  | .ok fs => (fs, .aborted (.unencodable u))

/-- How the storing of a chart ends when there is no directory for it. -/
def Files.DirectoryError.outcome : Files.DirectoryError → Outcome
  | nullInPath => .aborted .nullInPath
  | refused e => .failed e

/-- Writes what there is to write for a chart. -/
def store (host : Host) (o : Options) (script : Script) (c : Chart) (descriptions : Descriptions)
    (fs : Files) : Files × Outcome :=
  match fs.makeDirs o.outDir.toList with
  | .error ⟨e, fs⟩ => (fs, e.outcome)
  | .ok fs =>
    match descriptions.encode with
    | .error u => writeBeginning o script c u fs
    | .ok descriptions => writeOutputs host o script c descriptions fs

/-- The line that opens the work on a script. -/
def openingLine (script : Script) : String :=
  "[INFO] Parsing file: " ++ script.path

/-- The line that closes the work on a chart. -/
def summary (path : String) (d : Diagram) : String :=
  "[TIME] " ++ path ++ ": " ++ toString d.nodes.length ++ " nodes, " ++ toString d.edges.length ++
    " edges in " ++ Describer.elapsed

/-- Describes and stores a chart. -/
def deliver (host : Host) (o : Options) (script : Script) (text : List Char) (c : Chart)
    (s : State) : State × Outcome :=
  let (described, describer, transcript) := describeBy (host.progress o) text c.nodes s.describer
  let s := s.hear describer transcript
  match described with
  | .error fault => (s, .aborted (.description fault))
  | .ok descriptions =>
    let (files, outcome) := store host o script c descriptions s.files
    let s := { s with files }
    if outcome = .written then
      sayAll (host.progress o) [summary script.path c.diagram] s fun s => (s, .written)
    else (s, outcome)

/-- Works on one script. -/
def process (host : Host) (o : Options) (script : Script) (s : State) : State × Outcome :=
  sayAll (host.progress o) [openingLine script] s fun s =>
    match s.files.read script.path.toList with
    | .error e => (s, .failed e)
    | .ok bytes =>
      let text := scriptText bytes
      let finding := examine host o.view text
      sayAll (host.progress o) (finding.warning? o.view script.path).toList s fun s =>
        match finding with
        | .tooDeep message => (s, .aborted (.tooDeep message))
        | .chart c => deliver host o script text c s
        | _ => (s, .nothing)

/-- The line about a script that is passed over. -/
def failureLine (script : Script) (e : FileError) : String :=
  "[WARN] Failed to process " ++ script.path ++ ": " ++ e.message

/-- Works on one script, and warns if that fails. -/
def attempt (host : Host) (o : Options) (script : Script) (s : State) : State × Outcome :=
  match process host o script s with
  | (s, .failed e) =>
    sayAll (host.progress o) [failureLine script e] s fun s => (s, .failed e)
  | (s, outcome) => (s, outcome)

/-- A run that has broken off: why, and where it then stood. -/
structure Break where
  abort : Abort
  state : State

/-- Works on scripts one after the other. -/
def processAll (host : Host) (o : Options) : List Script → State → Except Break State
  | [], s => .ok s
  | script :: rest, s =>
    match attempt host o script s with
    | (s, .written) => processAll host o rest { s with done := s.done + 1 }
    | (s, .aborted a) => .error ⟨a, s⟩
    | (s, _) => processAll host o rest s

/-- The directory that the files work in. -/
def Files.cwdText (fs : Files) : List Char :=
  '/' :: Path.join fs.cwd

/-- A script below a directory. -/
def Script.below (fs : Files) (root path : List Char) : Script where
  path := .ofList path
  base := (outputBase? (.ofList fs.cwdText) (.ofList path) (.ofList root)).getD ""

/-- The scripts at a path: the file there, or all those in the directory there. -/
def scriptsAt (fs : Files) (path : List Char) : Except Abort (List Script) :=
  if fs.isFile path then
    let full := Path.absolute fs.cwdText path
    .ok (if isScript (.ofList path) then [Script.below fs (Path.parent full) full] else [])
  else if path.contains '\x00' then .error .nullInPath
  else
    .ok (((fs.filesBelow path).filter fun p => isScript (.ofList p)).map (Script.below fs path))

/-- What a run leaves behind. -/
structure Result where
  files : Files
  log : List LogLine
  /-- The settings of the model that was used, and what it was asked. -/
  model : Option (ModelSettings × List String)

/-- What the log shows, line by line. -/
def Result.shown (r : Result) (quiet : Bool) : List WideText :=
  (r.log.filter fun line => line.forced || !quiet).map (·.text)

/-- The state in which a run begins. `replies` are the model's answers in the order in which they
come. -/
def State.initial (replies : List Reply) (o : Options) (fs : Files) : State :=
  { files := fs, describer := o.model.map fun _ => { replies } }

def totalLine : String :=
  "[TIME] Total execution time: " ++ Describer.elapsed

def doneLine (o : Options) (done : Nat) : String :=
  "Done. " ++ toString done ++ " diagram(s) written to " ++ o.outDir

/-- What a run that ends in the state `s` leaves behind. -/
def State.result (o : Options) (s : State) : Result where
  files := s.files
  log := s.log ++ [⟨totalLine, false⟩, ⟨doneLine o s.done, true⟩]
  model := o.model.map fun settings => (settings, s.prompts)

/-- Ends a run, unless one of its last lines cannot be shown. -/
def conclude (host : Host) (o : Options) (s : State) : Except Break Result :=
  match (host.progress o totalLine).or (host.output (doneLine o s.done)) with
  | some fault => .error ⟨.line fault, s⟩
  | none => .ok (s.result o)

/-- Runs a batch. -/
def run (host : Host) (replies : List Reply) (o : Options) (fs : Files) : Except Break Result :=
  let s := State.initial replies o fs
  match scriptsAt fs o.path.toList with
  | .error a => .error ⟨a, s⟩
  | .ok scripts => do conclude host o (← processAll host o scripts s)

end Flowchart.Batch
