import Flowchart.Batch.Document
import Flowchart.Batch.Run
import Flowchart.Script.Rows

/-! The program. It reads the files that a run may look at, runs it, and writes what is new.
The tree of a script stands beside it in a file whose name goes on with `.tree`. -/
namespace Flowchart.Program
open Batch

def place (path : String) : Place :=
  (Path.parts path.toList).filter (· ≠ [])

/-- Adds the item at an absolute path, and for a directory all below it. -/
partial def load (fs : Files) (path : String) : IO Files := do
  let name := System.mkFilePath [path]
  if ← name.isDir then
    let mut fs := fs.addWithParents (place path) .directory
    for entry in ← name.readDir do
      fs ← load fs (path ++ "/" ++ entry.fileName)
    return fs
  else if ← name.pathExists then
    let bytes ← IO.FS.readBinFile name
    return fs.addWithParents (place path) (.file (.bytes bytes.toList))
  else return fs

/-- The trees of all scripts, by their texts. -/
def trees (fs : Files) : List (String × Tree) :=
  fs.items.filterMap fun (p, item) => do
    let .file (.bytes bytes) := item | none
    let last ← p.getLast?
    let .file (.bytes rows) ← fs.item? (p.dropLast ++ [last ++ ".tree".toList]) | none
    let tree ← Tree.ofText? (Utf8.decodeReplacing rows)
    return (.ofList (scriptText bytes), tree)

/-- A script that comes without a tree counts as empty. -/
def noTree : Tree :=
  .node ⟨"program", true, false, false, ⟨0, 0⟩, none⟩ []

def lines (ls : List String) : String :=
  String.join (ls.map (· ++ "\n"))

/-- What a run relies on. Reports are plain text, which holds everything. -/
def host (trees : List (String × Tree)) : Host where
  parse := fun text => (trees.lookup text).getD noTree
  output := .utf8

def save (p : Place) (item : Item) : IO Unit := do
  let path : String := .ofList ('/' :: Path.join p)
  match item with
  | .directory => IO.FS.createDirAll path
  | .file (.text s) => IO.FS.writeFile path s
  | .file (.document blocks) => IO.FS.writeFile path (lines (documentLines blocks))
  | .file (.bytes b) => IO.FS.writeBinFile path ⟨b.toArray⟩
  | .link _ => return

/-- Saves what is new. -/
def saveNew (before after : Files) : IO Unit := do
  for (p, item) in after.items do
    if before.item? p ≠ some item then save p item

def usage : String :=
  "usage: flowchart [-h] --path PATH [--view VIEW] [--out-dir OUT_DIR] [--docx] [--describe] " ++
    "[--ollama-model OLLAMA_MODEL] [--quiet]"

def runBatch (cwd : String) (o : Options) : IO UInt32 := do
  let mut before : Files := ⟨place cwd, [(place cwd, .directory)]⟩
  for path in [Path.absolute cwd.toList o.path.toList, o.outDir.toList] do
    before ← load before (.ofList path)
  match run (host (trees before)) [] o before with
  | .error e =>
    saveNew before e.state.files
    IO.eprintln ("error: " ++ e.abort.message)
    return 1
  | .ok r =>
    saveNew before r.files
    IO.print (lines ((r.shown o.quiet).filterMap (·.encode.toOption)))
    return 0

end Flowchart.Program

def main (args : List String) : IO UInt32 := do
  let cwd := toString (← IO.currentDir)
  match Flowchart.Batch.Request.parse cwd args with
  | .error (.usage e) =>
    IO.eprintln Flowchart.Program.usage
    IO.eprintln ("flowchart: error: " ++ e.message)
    return 2
  | .error e =>
    IO.eprintln ("error: " ++ e.message)
    return 1
  | .ok .help =>
    IO.println Flowchart.Program.usage
    return 0
  | .ok (.run o) => Flowchart.Program.runBatch cwd o
