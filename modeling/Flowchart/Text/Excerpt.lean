import Flowchart.Text.Blank

/-! Cutting a text to a number of characters. -/
namespace Flowchart.Text

/-- The position that a bound stands for in a sequence. A negative bound counts from the end. -/
def position {α : Type} (xs : List α) (bound : Int) : Nat :=
  if 0 ≤ bound then bound.toNat else xs.length - (-bound).toNat

/-- What lies between two bounds; nothing when they are in the wrong order. -/
def slice {α : Type} (start stop : Int) (xs : List α) : List α :=
  (xs.take (position xs stop)).drop (position xs start)

theorem position_natCast {α : Type} (xs : List α) (n : Nat) : position xs n = n := by
  simp [position]

theorem slice_natCast {α : Type} (start stop : Nat) (xs : List α) :
    slice start stop xs = (xs.take stop).drop start := by
  simp [slice, position_natCast]

/-- The text before a bound. -/
def upTo (bound : Int) (s : List Char) : List Char :=
  s.take (position s bound)

def ellipsis : List Char := "...".toList

/-- The trimmed text; what is beyond `limit` characters is replaced by an ellipsis. -/
def clip (limit : Int) (s : List Char) : List Char :=
  let t := trim s
  if limit < t.length then upTo limit t ++ ellipsis else t

/-- How much of a label its box shows. -/
def displayLimit : Int := 35

/-- The text cut to `limit` characters, of which the last three are then an ellipsis. -/
def truncate (limit : Int) (s : List Char) : List Char :=
  if limit < s.length then upTo (limit - 3) s ++ ellipsis else s

end Flowchart.Text
