import Flowchart.Text.Excerpt
import Flowchart.Text.Utf8

/-! A script's text with the table that turns byte offsets into characters, lines and columns. -/
namespace Flowchart

/-- A stretch of a script, in bytes. A negative bound counts from the end of the script. -/
structure Span where
  start : Int
  stop : Int
  deriving DecidableEq, Repr, Inhabited

/-- A stretch of a script, in characters. A negative bound counts from the end. -/
structure CharRange where
  start : Int
  stop : Int
  deriving DecidableEq, Repr, Inhabited

/-- Lines count from one, columns from zero, both in characters. -/
structure Location where
  line : Int
  column : Int
  deriving DecidableEq, Repr, Inhabited

structure LocRange where
  start : Location
  stop : Location
  deriving DecidableEq, Repr, Inhabited

/-- From the start of one stretch to the end of another. -/
def Span.through (s last : Span) : Span :=
  ⟨s.start, last.stop⟩

/-- Where a line begins. -/
structure LineStart where
  byte : Nat
  char : Nat
  deriving DecidableEq, Repr, Inhabited

/-- The starts of the lines that begin after the first line break, counted on from `pos`. -/
def lineStartsFrom (pos : LineStart) : List Char → List LineStart
  | [] => []
  | c :: r =>
    let next : LineStart := ⟨pos.byte + Utf8.width c, pos.char + 1⟩
    if c = '\n' then next :: lineStartsFrom next r else lineStartsFrom next r

/-- The line table of a text. Its first entry is the start of the text. -/
def lineStarts (text : List Char) : List LineStart :=
  ⟨0, 0⟩ :: lineStartsFrom ⟨0, 0⟩ text

def isAscii (text : List Char) : Bool :=
  text.all (·.toNat < 0x80)

/-- A text together with what is looked up in it again and again. -/
structure Source where
  text : List Char
  bytes : List UInt8 := Utf8.encode text
  lines : List LineStart := lineStarts text
  ascii : Bool := isAscii text
  bytes_eq : bytes = Utf8.encode text := by rfl
  lines_eq : lines = lineStarts text := by rfl
  ascii_eq : ascii = isAscii text := by rfl

namespace Source

def ofString (s : String) : Source :=
  { text := s.toList }

/-- The bytes of a span; what lies past the end of the text is left out. -/
def bytesOf (src : Source) (s : Span) : List UInt8 :=
  Text.slice s.start s.stop src.bytes

/-- The last of the lines up to a place. What lies before the text belongs to its last line. -/
def lastLine (src : Source) (upToHere : List LineStart) : LineStart :=
  (upToHere.getLast?.or src.lines.getLast?).getD ⟨0, 0⟩

/-- The last line of the table that begins at or before byte `b`. -/
def lineAtByte (src : Source) (b : Int) : LineStart :=
  src.lastLine (src.lines.takeWhile (·.byte ≤ b))

/-- The character offset of a byte, counted from the start of its line. A byte inside a character
does not count that character. -/
def charOffsetByLine (src : Source) (b : Int) : Nat :=
  let line := src.lineAtByte b
  line.char + (Utf8.decodeDropping (src.bytesOf ⟨line.byte, b⟩)).length

/-- The character offset of a byte. In an ASCII text the two agree, also outside the text. -/
def charOffset (src : Source) (b : Int) : Int :=
  if src.ascii then b else src.charOffsetByLine b

/-- The line and column of a byte. What lies before the text is on line zero. -/
def location (src : Source) (b : Int) : Location :=
  let offset := src.charOffset b
  let upToHere := src.lines.takeWhile (·.char ≤ offset)
  ⟨upToHere.length, offset - (src.lastLine upToHere).char⟩

def range (src : Source) (s : Span) : CharRange :=
  ⟨src.charOffset s.start, src.charOffset s.stop⟩

def locRange (src : Source) (s : Span) : LocRange :=
  ⟨src.location s.start, src.location s.stop⟩

/-- The characters of a span, with U+FFFD for what the span cuts. -/
def charsOf (src : Source) (s : Span) : List Char :=
  Utf8.decodeReplacing (src.bytesOf s)

def textOf (src : Source) (s : Span) : String :=
  .ofList (src.charsOf s)

/-- The first `limit` characters of a span. -/
def head (src : Source) (s : Span) (limit : Int) : String :=
  .ofList (Text.upTo limit (src.charsOf s))

/-- The trimmed text of a span, cut to `limit` characters. -/
def excerpt (src : Source) (s : Span) (limit : Int) : String :=
  .ofList (Text.clip limit (src.charsOf s))

/-- How much of a construct its snippet shows. -/
def snippetLimit : Int := 50

/-- What stands for a construct that is missing. -/
def placeholder : String := "?"

def snippet (src : Source) (s : Span) : String :=
  src.excerpt s snippetLimit

end Source
end Flowchart
