import Flowchart.Text.Blank
import Flowchart.Text.Excerpt

/-! Labels that are safe inside a Mermaid flowchart. -/
namespace Flowchart.Mermaid

/-- Printable ASCII, line breaks and tabs. -/
def isPlain (c : Char) : Bool :=
  (0x20 ≤ c.toNat && c.toNat ≤ 0x7E) || c = '\n' || c = '\r' || c = '\t'

/-- The text without the characters that are not plain. -/
def plain (s : List Char) : List Char :=
  s.filter isPlain

/-- The longest label. -/
def labelLimit : Nat := 180

/-- The text without a `#` and up to four digits at its end, which a cut may have left of a code. -/
def dropBrokenCode (s : List Char) : List Char :=
  let digits := s.reverse.takeWhile Char.isDigit
  match s.reverse.dropWhile Char.isDigit with
  | '#' :: r => if 1 ≤ digits.length ∧ digits.length ≤ 4 then r.reverse else s
  | _ => s

/-- A long label is cut, mended where the cut broke a code, and marked by an ellipsis. -/
def cutLabel (s : List Char) : List Char :=
  if labelLimit < s.length then
    Text.trimEnd (dropBrokenCode (Text.trimEnd (s.take (labelLimit - 3)))) ++ Text.ellipsis
  else s

/-- A plain label on one line and of bounded length. -/
def clamp (s : List Char) : List Char :=
  cutLabel (Text.singleLine (plain s))

/-- The code of a character that means something in a flowchart. -/
def code : Char → Option String
  | '&' => some "#38;"
  | '#' => some "#35;"
  | '(' => some "#40;"
  | ')' => some "#41;"
  | '[' => some "#91;"
  | ']' => some "#93;"
  | '\x7b' => some "#123;"
  | '\x7d' => some "#125;"
  | '\x22' => some "#34;"
  | '|' => some "#124;"
  | '<' => some "#60;"
  | '>' => some "#62;"
  | _ => none

def escapeChar (c : Char) : List Char :=
  (code c).elim [c] String.toList

/-- The text with its special characters written as codes. -/
def escape (s : List Char) : List Char :=
  s.flatMap escapeChar

/-- The label of something that has no other. -/
def defaultLabel : String := "step"

/-- A label for any text: plain, on one line, escaped and clamped; `fallback` if nothing is left. -/
def label (s fallback : String) : String :=
  let safe := clamp (escape (Text.singleLine (plain s.toList)))
  if safe.isEmpty then fallback else .ofList safe

end Flowchart.Mermaid
