import Flowchart.Batch.Path
import Flowchart.Describe
import Flowchart.Flow.View
import Flowchart.Text.Digit

/-! The command line. -/
namespace Flowchart.Batch

inductive Flag where
  | help
  | path
  | view
  | outDir
  | docx
  | describe
  | model
  | quiet
  deriving DecidableEq, Repr

/-- The spellings of the flags, in the order in which they are offered. -/
def spellings : List (String × Flag) := [
  ("-h", .help), ("--help", .help), ("--path", .path), ("--view", .view), ("--out-dir", .outDir),
  ("--docx", .docx), ("--describe", .describe), ("--ollama-model", .model), ("--quiet", .quiet)]

namespace Flag

def takesValue : Flag → Bool
  | path | view | outDir | model => true
  | help | docx | describe | quiet => false

/-- All spellings of a flag. -/
def title (f : Flag) : String :=
  String.intercalate "/" ((spellings.filter (·.2 = f)).map (·.1))

end Flag

/-- Why a command line is refused. -/
inductive UsageError where
  | ambiguous (word : String) (candidates : List String)
  | noValue (flag : Flag)
  | unusedValue (flag : Flag) (value : String)
  | noPath
  | unknown (words : List String)
  | view (e : UnknownView)
  | unnamedView
  deriving DecidableEq, Repr

def UsageError.message : UsageError → String
  | ambiguous word candidates =>
    "ambiguous option: " ++ word ++ " could match " ++ String.intercalate ", " candidates
  | noValue flag => "argument " ++ flag.title ++ ": expected one argument"
  | unusedValue flag value =>
    "argument " ++ flag.title ++ ": ignored explicit argument " ++ Text.quote value
  | noPath => "the following arguments are required: " ++ Flag.path.title
  | unknown words => "unrecognized arguments: " ++ String.intercalate " " words
  | view e => e.message
  | unnamedView => UnknownView.text "[]"

/-- What a word of the command line is: a plain word, the mark after which all words are plain,
a flag, perhaps with a value of its own, or something that looks like a flag. -/
inductive Word where
  | plain
  | mark
  | flag (flag : Flag) (value : Option String)
  | stray
  deriving DecidableEq, Repr

namespace Word

/-- A minus sign and digits, perhaps with one decimal point before the last of them. -/
def isNegativeNumber (s : List Char) : Bool :=
  match s with
  | '-' :: r =>
    let r := if r.getLast? = some '\n' then r.dropLast else r
    match r.dropWhile Text.isDigit with
    | [] => !r.isEmpty
    | '.' :: fraction => !fraction.isEmpty && fraction.all Text.isDigit
    | _ => false
  | _ => false

/-- The text before the first `=` and the text after it. -/
def splitValue (s : List Char) : List Char × Option String :=
  match s.dropWhile (· ≠ '=') with
  | [] => (s, none)
  | _ :: value => (s.takeWhile (· ≠ '='), some (.ofList value))

/-- The flags that a word may stand for: those that a long word begins, or the short one that it
begins with. -/
def candidates (s : List Char) : List (String × Flag × Option String) :=
  match s with
  | '-' :: '-' :: _ =>
    let (start, value) := splitValue s
    (spellings.filter fun (name, _) => start.isPrefixOf name.toList).map fun (name, f) =>
      (name, f, value)
  | '-' :: c :: rest =>
    (spellings.filter fun (name, _) => name.toList = ['-', c]).map fun (name, f) =>
      (name, f, some (.ofList rest))
  | _ => []

/-- The value in what follows a short flag. Repetitions of its letter are none, and an equals sign
stands before a value only where it comes first. -/
def shortValue (s : List Char) : Option String :=
  let s := if s.head? = some '=' then s.tail else s
  let value := s.dropWhile (· = 'h')
  if value = [] && s ≠ [] then none else some (.ofList value)

def ofNonempty (word : String) (s : List Char) : Except UsageError Word :=
  match spellings.lookup word with
  | some f => .ok (flag f none)
  | none =>
    match candidates s with
    | [(name, f, value)] =>
      if name = "-h" then .ok (flag f (shortValue (s.drop 2))) else .ok (flag f value)
    | [] =>
      if s.length ≤ 1 || isNegativeNumber s || s.contains ' ' then .ok plain else .ok stray
    | several => .error (.ambiguous word (several.map (·.1)))

/-- Reads one word. -/
def read (word : String) : Except UsageError Word :=
  match word.toList with
  | '-' :: r => if r = ['-'] then .ok mark else ofNonempty word ('-' :: r)
  | _ => .ok plain

/-- Reads all words. After the mark every word is plain. -/
def readAll : List String → Except UsageError (List (String × Word))
  | [] => .ok []
  | word :: rest => do
    match ← read word with
    | mark => return (word, mark) :: rest.map fun w => (w, plain)
    | kind => return (word, kind) :: (← readAll rest)

end Word

/-- What a flag is given: a text, or nothing when the mark stands in its place. -/
inductive Value where
  | text (s : String)
  | nothing
  deriving DecidableEq, Repr

namespace Value

def ofWord (word : String) : Value :=
  if word = "--" then nothing else text word

def text? : Value → Option String
  | text s => some s
  | nothing => none

/-- The view that a value names. -/
def view : Value → Except UsageError View
  | text name => (View.parse (some name)).mapError .view
  | nothing => .error .unnamedView

end Value

/-- The values given so far. -/
structure Settings where
  path : Option Value := none
  view : Value := .text View.fullOperations.name
  outDir : Option Value := none
  docx : Bool := false
  describe : Bool := false
  model : Value := .text "gpt-oss"
  quiet : Bool := false
  deriving DecidableEq, Repr

/-- Sets a flag that takes a value. -/
def Settings.set (s : Settings) (f : Flag) (value : Value) : Settings :=
  match f with
  | .path => { s with path := some value }
  | .view => { s with view := value }
  | .outDir => { s with outDir := some value }
  | .model => { s with model := value }
  | _ => s

/-- Sets a flag that stands alone. -/
def Settings.turnOn (s : Settings) (f : Flag) : Settings :=
  match f with
  | .docx => { s with docx := true }
  | .describe => { s with describe := true }
  | .quiet => { s with quiet := true }
  | _ => s

/-- What a run is to do. -/
structure Options where
  path : String
  view : View := .fullOperations
  outDir : String
  docx : Bool := false
  /-- The model that describes functions, if they are to be described. -/
  model : Option ModelSettings := none
  quiet : Bool := false
  deriving DecidableEq, Repr

inductive Request where
  | help
  | run (options : Options)
  deriving DecidableEq, Repr

/-- Why a command line asks for nothing that can be done: it is refused, or it leaves one of the
two places of a run without a name. -/
inductive CommandError where
  | usage (e : UsageError)
  | unnamedPath
  | unnamedOutDir
  deriving DecidableEq, Repr

def CommandError.message : CommandError → String
  | usage e => e.message
  | unnamedPath => "stat: path should be string, bytes, os.PathLike or integer, not list"
  | unnamedOutDir => "expected str, bytes or os.PathLike object, not list"

/-- The words applied to the settings, and the words that mean nothing; nothing when help is
asked for. -/
def apply (s : Settings) (unknown : List String) :
    List (String × Word) → Except UsageError (Option (Settings × List String))
  | [] => .ok (some (s, unknown))
  | (_, .flag f (some value)) :: rest =>
    if f.takesValue then apply (s.set f (.ofWord value)) unknown rest
    else .error (.unusedValue f value)
  | (_, .flag f none) :: (value, .plain) :: rest =>
    if f.takesValue then apply (s.set f (.ofWord value)) unknown rest
    else if f = .help then .ok none
    else apply (s.turnOn f) unknown ((value, .plain) :: rest)
  | (_, .flag f none) :: rest =>
    if f.takesValue then .error (.noValue f)
    else if f = .help then .ok none
    else apply (s.turnOn f) unknown rest
  | (word, _) :: rest => apply s (unknown ++ [word]) rest

/-- The directory for outputs when none is given. -/
def defaultOutDir (cwd : String) : String :=
  cwd ++ "/flows"

/-- The path and the view, once all words are known to mean something. -/
def Settings.checked (s : Settings) (unknown : List String) : Except UsageError (Value × View) := do
  let some path := s.path | .error .noPath
  if !unknown.isEmpty then .error (.unknown unknown)
  return (path, ← s.view.view)

/-- The options that the settings amount to. -/
def Settings.options (s : Settings) (cwd : String) (unknown : List String) :
    Except CommandError Options := do
  let (path, view) ← (s.checked unknown).mapError .usage
  let .text outDir := s.outDir.getD (.text (defaultOutDir cwd)) | .error .unnamedOutDir
  let .text path := path | .error .unnamedPath
  return {
    path, view
    outDir := .ofList (Path.absolute cwd.toList outDir.toList)
    docx := s.docx
    model := if s.describe then some { model := s.model.text? } else none
    quiet := s.quiet }

/-- The settings that a list of words amounts to, and the words that mean nothing; nothing when
help is asked for. -/
def Settings.read (words : List String) : Except UsageError (Option (Settings × List String)) := do
  apply {} [] (← Word.readAll words)

/-- Reads a command line in the directory `cwd`. -/
def Request.parse (cwd : String) (words : List String) : Except CommandError Request := do
  match ← (Settings.read words).mapError .usage with
  | none => return .help
  | some (s, unknown) => return .run (← s.options cwd unknown)

end Flowchart.Batch
