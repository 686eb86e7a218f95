import Flowchart.Text.Lines

/-! Paths as texts: normal forms, relative paths, and the names of output files. -/
namespace Flowchart.Path

/-- The parts between slashes; empty parts are kept. -/
def parts (p : List Char) : List (List Char) :=
  Text.splitAt '/' p

/-- Parts with slashes between them. -/
def join (ps : List (List Char)) : List Char :=
  ['/'].intercalate ps

def isAbsolute (p : List Char) : Bool :=
  p.head? = some '/'

/-- The slashes that a normal form begins with: exactly two are kept, any other number counts as
one. -/
def leading (p : List Char) : List Char :=
  match (p.takeWhile (· = '/')).length with
  | 0 => []
  | 2 => ['/', '/']
  | _ => ['/']

/-- One more part of a normal form, whose parts so far are given from the last to the first. -/
def push (absolute : Bool) (done : List (List Char)) (part : List Char) : List (List Char) :=
  if part = [] || part = ['.'] then done
  else if part = ['.', '.'] then
    match done with
    | [] => if absolute then [] else [part]
    | last :: rest => if last = ['.', '.'] then part :: done else rest
  else part :: done

/-- The path without empty parts, without `.`, and with each `..` undone where that is possible. -/
def normalize (p : List Char) : List Char :=
  let ps := ((parts p).foldl (push (isAbsolute p)) []).reverse
  match leading p ++ join ps with
  | [] => ['.']
  | q => q

/-- A path below a directory, unless it is absolute. A slash goes between the two where there is
none. -/
def under (dir p : List Char) : List Char :=
  if isAbsolute p then p
  else if dir = [] || dir.getLast? = some '/' then dir ++ p
  else dir ++ '/' :: p

def absolute (cwd p : List Char) : List Char :=
  normalize (under cwd p)

/-- The names on the way to an absolute path. -/
def names (cwd p : List Char) : List (List Char) :=
  (parts (absolute cwd p)).filter (· ≠ [])

/-- The way from one list of names to another: up to the last common one, then down. -/
def way (start target : List (List Char)) : List (List Char) :=
  match start, target with
  | a :: start', b :: target' =>
    if a = b then way start' target' else (a :: start').map (fun _ => ['.', '.']) ++ b :: target'
  | start, target => start.map (fun _ => ['.', '.']) ++ target

/-- The path as seen from the directory `start`; an empty path cannot be seen. -/
def relative? (cwd p start : List Char) : Option (List Char) :=
  if p = [] then none
  else
    match way (names cwd start) (names cwd p) with
    | [] => some ['.']
    | ps => some (join ps)

/-- A name without its extension. Dots at its start begin no extension. -/
def stem (name : List Char) : List Char :=
  let dots := name.takeWhile (· = '.')
  let body := name.dropWhile (· = '.')
  match (body.reverse.dropWhile (· ≠ '.')).reverse with
  | [] => name
  | upToDot => dots ++ upToDot.dropLast

/-- The path without the extension of its last part. -/
def withoutExtension (p : List Char) : List Char :=
  let ps := parts p
  join (ps.dropLast ++ (ps.getLast?.map stem).toList)

def fileName (p : List Char) : List Char :=
  (parts p).getLast?.getD []

/-- The directory of an absolute normal path. -/
def parent (p : List Char) : List Char :=
  match (parts p).dropLast with
  | [[]] => ['/']
  | ps => join ps

end Flowchart.Path

namespace Flowchart.Batch

/-- The extensions of scripts. -/
def extensions : List String :=
  [".js", ".mjs", ".cjs"]

def isScript (path : String) : Bool :=
  extensions.any fun e => e.toList.isSuffixOf path.toList

/-- The name, without extension, of the outputs for a script found under `root`. -/
def outputBase? (cwd path root : String) : Option String :=
  (Path.relative? cwd.toList path.toList root.toList).map fun p =>
    .ofList ((Path.withoutExtension p).map fun c => if c = '/' then '_' else c)

/-- What is said when there is no path to name an output after. -/
def noPath : String := "no path specified"

end Flowchart.Batch
