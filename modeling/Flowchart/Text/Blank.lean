/-! Blank characters, trimming, and the collapsing of blank runs. -/
namespace Flowchart.Text

/-- The code points that count as blank. Zero-width characters are not among them. -/
def isBlank (c : Char) : Bool :=
  let n := c.toNat
  (9 ≤ n && n ≤ 13) || (28 ≤ n && n ≤ 32) || n == 0x85 || n == 0xA0 || n == 0x1680 ||
    (0x2000 ≤ n && n ≤ 0x200A) || n == 0x2028 || n == 0x2029 || n == 0x202F || n == 0x205F ||
    n == 0x3000

theorem isBlank_of_isWhitespace {c : Char} (h : c.isWhitespace = true) : isBlank c = true := by
  simp only [Char.isWhitespace, Bool.or_eq_true, decide_eq_true_eq] at h
  rcases h with ((rfl | rfl) | rfl) | rfl <;> decide

def trimStart (s : List Char) : List Char :=
  s.dropWhile isBlank

def trimEnd (s : List Char) : List Char :=
  (s.reverse.dropWhile isBlank).reverse

/-- The text without the blanks at both of its ends. -/
def trim (s : List Char) : List Char :=
  trimEnd (trimStart s)

/-- Each run of blanks becomes one space; `inRun` tells that the last character was blank. -/
def collapseFrom (inRun : Bool) : List Char → List Char
  | [] => []
  | c :: r =>
    if isBlank c then
      if inRun then collapseFrom true r else ' ' :: collapseFrom true r
    else c :: collapseFrom false r

def collapse (s : List Char) : List Char :=
  collapseFrom false s

/-- The text on one line: blank runs are single spaces, none at the ends. -/
def singleLine (s : List Char) : List Char :=
  trim (collapse s)

end Flowchart.Text
