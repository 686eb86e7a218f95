import Flowchart.Json.Basic
import Flowchart.Text.Quoted

/-! The text of a JSON value, two spaces deeper on each level. -/
namespace Flowchart.Json

def escapeChar (c : Char) : List Char :=
  if c = '\x22' || c = '\\' then ['\\', c]
  else if c = '\n' then ['\\', 'n']
  else if c = '\r' then ['\\', 'r']
  else if c = '\t' then ['\\', 't']
  else if c.toNat = 8 then ['\\', 'b']
  else if c.toNat = 12 then ['\\', 'f']
  else if c.toNat < 0x20 then '\\' :: 'u' :: Text.hexDigits 4 c.toNat
  else [c]

/-- A text between double quotes; characters beyond ASCII stay as they are. -/
def quote (s : String) : String :=
  .ofList ('\x22' :: s.toList.flatMap escapeChar ++ ['\x22'])

/-- A line break and the indentation of a level. -/
def newline (level : Nat) : String :=
  .ofList ('\n' :: List.replicate (2 * level) ' ')

/-- Items between brackets, each on a line of its own; the brackets stand at `level`. -/
def enclose (left right : String) (level : Nat) (items : List String) : String :=
  if items.isEmpty then left ++ right
  else
    left ++ newline (level + 1) ++ String.intercalate ("," ++ newline (level + 1)) items ++
      newline level ++ right

mutual

def printAt (level : Nat) : Json → String
  | null => "null"
  | bool b => if b then "true" else "false"
  | int n => toString n
  | str s => quote s
  | arr items => enclose "[" "]" level (printItems (level + 1) items)
  | obj members => enclose "\x7b" "\x7d" level (printMembers (level + 1) members)

def printItems (level : Nat) : List Json → List String
  | [] => []
  | v :: vs => printAt level v :: printItems level vs

def printMembers (level : Nat) : List (String × Json) → List String
  | [] => []
  | (key, v) :: ms => (quote key ++ ": " ++ printAt level v) :: printMembers level ms

end

def print (v : Json) : String :=
  printAt 0 v

/-- The beginning of an object at `level`: the members in front, and the key of the next one. -/
def printUpTo (level : Nat) (before : List (String × Json)) (key : String) : String :=
  "\x7b" ++ newline (level + 1) ++
    String.join ((printMembers (level + 1) before).map (· ++ "," ++ newline (level + 1))) ++
    quote key ++ ": "

end Flowchart.Json
