import Flowchart.Batch.Path
import Flowchart.Report
import Flowchart.Text.Order
import Flowchart.Text.Quoted
import Flowchart.Text.Utf8

/-! Directories, files and links, and what reading and writing them can run into. -/
namespace Flowchart.Batch

/-- A place in the directory tree: the names on the way from the root. -/
abbrev Place := List (List Char)

inductive Content where
  | bytes (bytes : List UInt8)
  | text (text : String)
  | document (blocks : List Block)
  deriving DecidableEq, Repr

inductive Item where
  | directory
  | file (content : Content)
  | link (target : List Char)
  deriving DecidableEq, Repr

inductive Refusal where
  | missing
  | occupied
  | notDirectory
  | isDirectory
  | nameTooLong
  | linkLoop
  deriving DecidableEq, Repr

def Refusal.number : Refusal → Nat
  | missing => 2
  | occupied => 17
  | notDirectory => 20
  | isDirectory => 21
  | nameTooLong => 36
  | linkLoop => 40

def Refusal.text : Refusal → String
  | missing => "No such file or directory"
  | occupied => "File exists"
  | notDirectory => "Not a directory"
  | isDirectory => "Is a directory"
  | nameTooLong => "File name too long"
  | linkLoop => "Too many levels of symbolic links"

/-- A refusal and the path that it is about. -/
structure FileError where
  refusal : Refusal
  path : List Char
  deriving DecidableEq, Repr

def FileError.message (e : FileError) : String :=
  "[Errno " ++ toString e.refusal.number ++ "] " ++ e.refusal.text ++ ": " ++
    Text.quote (.ofList e.path)

/-- The working directory, and what there is at each place. The root is always a directory. -/
structure Files where
  cwd : Place
  items : List (Place × Item)
  deriving Repr

namespace Files

def item? (fs : Files) (place : Place) : Option Item :=
  if place = [] then some .directory else fs.items.lookup place

/-- Sets what there is at a place. -/
def put (fs : Files) (place : Place) (item : Item) : Files :=
  if (fs.items.lookup place).isSome then
    { fs with items := fs.items.map fun (p, i) => if p = place then (p, item) else (p, i) }
  else { fs with items := fs.items ++ [(place, item)] }

/-- Adds an item together with the directories above it that are not there yet. -/
def addWithParents (fs : Files) (place : Place) (item : Item) : Files :=
  let above := (List.range place.length).map fun n => place.take n
  let ensure (fs : Files) (p : Place) := if (fs.item? p).isSome then fs else fs.put p .directory
  (above.foldl ensure fs).put place item

/-- The longest name, in bytes. -/
def nameLimit : Nat := 255

/-- The longest path, in bytes. -/
def pathLimit : Nat := 4095

/-- The path has more bytes than a path may have. -/
def isOverlong (path : List Char) : Bool :=
  pathLimit < (Utf8.encode path).length

/-- What a path is followed for: what is at its end, or a file that may be made there. -/
inductive Purpose where
  | lookUp
  | makeFile
  deriving DecidableEq, Repr

/-- There is no name left but a slash at the end. -/
def isLastSlash (rest : List (List Char)) : Bool :=
  rest ≠ [] && rest.all (· = [])

/-- Follows the parts of a path from the directory `here`, leaving the way through a link to
`jump`. Nothing need be at the last part. A file is not made at a name with a slash behind it. -/
def follow (fs : Files) (purpose : Purpose)
    (jump : Place → List (List Char) → Except Refusal Place) (here : Place) :
    List (List Char) → Except Refusal Place
  | [] => .ok here
  | name :: rest =>
    if fs.item? here ≠ some .directory then .error .notDirectory
    else if name = [] || name = ['.'] then follow fs purpose jump here rest
    else if name = ['.', '.'] then follow fs purpose jump here.dropLast rest
    else if purpose = .makeFile && isLastSlash rest then .error .isDirectory
    else if nameLimit < (Utf8.encode name).length then .error .nameTooLong
    else
      match fs.item? (here ++ [name]) with
      | none => if rest = [] then .ok (here ++ [name]) else .error .missing
      | some (.link target) =>
        jump (if Path.isAbsolute target then [] else here) (Path.parts target ++ rest)
      | some _ => follow fs purpose jump (here ++ [name]) rest

/-- The place that a path leads to through at most `links` links. -/
def locateWithin (fs : Files) (purpose : Purpose) :
    Nat → Place → List (List Char) → Except Refusal Place
  | 0, _, _ => .error .linkLoop
  | links + 1, here, parts => follow fs purpose (locateWithin fs purpose links) here parts

/-- The most links that a path may lead through, and one more. -/
def linkLimit : Nat := 41

/-- The place that a path leads to. The empty path leads nowhere. -/
def locate (fs : Files) (purpose : Purpose) (path : List Char) : Except Refusal Place :=
  if path = [] then .error .missing
  else if isOverlong path then .error .nameTooLong
  else
    locateWithin fs purpose linkLimit (if Path.isAbsolute path then [] else fs.cwd)
      (Path.parts path)

/-- What is at the end of a path. -/
def find (fs : Files) (path : List Char) : Except Refusal Item := do
  match fs.item? (← fs.locate .lookUp path) with
  | some item => .ok item
  | none => .error .missing

def isFile (fs : Files) (path : List Char) : Bool :=
  match fs.find path with
  | .ok (.file _) => true
  | _ => false

def isDirectory (fs : Files) (path : List Char) : Bool :=
  match fs.find path with
  | .ok .directory => true
  | _ => false

/-- The bytes of a file. -/
def read (fs : Files) (path : List Char) : Except FileError (List UInt8) :=
  match fs.find path with
  | .ok (.file (.bytes b)) => .ok b
  | .ok (.file (.text s)) => .ok (Utf8.encode s.toList)
  | .ok (.file (.document _)) => .ok []
  | .ok _ => .error ⟨.isDirectory, path⟩
  | .error r => .error ⟨r, path⟩

/-- Writes a file, in place of one that is already there. -/
def write (fs : Files) (path : List Char) (content : Content) : Except FileError Files :=
  match fs.locate .makeFile path with
  | .error r => .error ⟨r, path⟩
  | .ok place =>
    if fs.item? place = some .directory then .error ⟨.isDirectory, path⟩
    else .ok (fs.put place (.file content))

/-- The place of what is at the end of a path. -/
def placeOf? (fs : Files) (path : List Char) : Option Place :=
  match fs.locate .lookUp path with
  | .ok place => if (fs.item? place).isSome then some place else none
  | .error _ => none

/-- Makes a directory with the name `name` at a place where there need not be a directory, and
tells its own place. -/
def makeDir (fs : Files) (name : List Char) (place : Place) : Except Refusal (Files × Place) :=
  match fs.item? place with
  | some .directory =>
    if nameLimit < (Utf8.encode name).length then .error .nameTooLong
    else if (fs.item? (place ++ [name])).isSome then .error .occupied
    else .ok (fs.put (place ++ [name]) .directory, place ++ [name])
  | some _ => .error .notDirectory
  | none => .error .missing

/-- Why a directory is not there after all. -/
inductive DirectoryError where
  | refused (e : FileError)
  | nullInPath
  deriving DecidableEq, Repr

/-- A directory that is not there after all: why, and the files with those above it that have been
made. -/
structure DirectoryFailure where
  error : DirectoryError
  files : Files

/-- Makes the directory `path` with the name `name`, if it is not there yet, and tells its place.
`dir` is the place that it is to be in, as far as there is one. -/
def ensureDir (fs : Files) (path name : List Char) (dir : Except Refusal Place) :
    Except DirectoryFailure (Files × Place) :=
  if path.contains '\x00' then .error ⟨.nullInPath, fs⟩
  else
    match if isOverlong path then .error .nameTooLong else dir.bind (fs.makeDir name) with
    | .ok made => .ok made
    | .error r =>
      match fs.placeOf? path with
      | some place =>
        if fs.item? place = some .directory then .ok (fs, place)
        else .error ⟨.refused ⟨r, path⟩, fs⟩
      | none => .error ⟨.refused ⟨r, path⟩, fs⟩

/-- Makes a directory and those above it, given its path from the last name up, and tells its
place. What is there is left as it is. `slashes` begin each path. -/
def makeDirsUp (slashes : List Char) (fs : Files) :
    List (List Char) → Except DirectoryFailure (Files × Place)
  | [] => .ok (fs, [])
  | name :: above =>
    let dir := slashes ++ Path.join above.reverse
    let path := slashes ++ Path.join (name :: above).reverse
    match fs.placeOf? dir with
    | some place => fs.ensureDir path name (.ok place)
    | none =>
      match makeDirsUp slashes fs above with
      | .ok (fs, place) => fs.ensureDir path name (.ok place)
      | .error ⟨.refused ⟨.occupied, _⟩, fs⟩ => fs.ensureDir path name (fs.locate .lookUp dir)
      | .error e => .error e

/-- Makes the directory with an absolute normal path. -/
def makeDirs (fs : Files) (path : List Char) : Except DirectoryFailure Files :=
  (makeDirsUp (Path.leading path) fs ((Path.parts path).filter (· ≠ [])).reverse).map (·.1)

/-- The names in a directory, as they come. -/
def listing (fs : Files) (place : Place) : List (List Char) :=
  let inside := (fs.items.map (·.1)).filter fun p => p ≠ [] && p.dropLast = place
  inside.filterMap (·.getLast?)

/-- The names in a directory, in order. -/
def namesIn (fs : Files) (place : Place) : List (List Char) :=
  (fs.listing place).mergeSort Text.comesFirst

/-- The files below a directory that is `levels` deep: first its own, by their names, then those of
its directories, as these come. Each path begins with `path`; a link counts as a file unless it
leads to a directory. A directory whose path is overlong shows no files. -/
def walk (fs : Files) : Nat → Place → List Char → List (List Char)
  | 0, _, _ => []
  | levels + 1, place, path =>
    let isBelow (name : List Char) : Bool := fs.item? (place ++ [name]) = some .directory
    let leadsDown (name : List Char) := isBelow name || fs.isDirectory (Path.under path name)
    if isOverlong path then []
    else
      ((fs.namesIn place).filter (!leadsDown ·)).map (Path.under path) ++
        ((fs.listing place).filter isBelow).flatMap fun name =>
          walk fs levels (place ++ [name]) (Path.under path name)

/-- The files below the directory at `path`, none if there is no directory. -/
def filesBelow (fs : Files) (path : List Char) : List (List Char) :=
  match fs.locate .lookUp path with
  | .ok place =>
    if fs.item? place = some .directory then fs.walk (fs.items.length + 1) place path else []
  | .error _ => []

end Files
end Flowchart.Batch
