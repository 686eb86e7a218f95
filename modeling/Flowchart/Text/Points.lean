import Flowchart.Text.Blank
import Flowchart.Text.Quoted

/-! Texts in which surrogates may stand alone. They come from outside: what a model says, and what a
failure tells of itself. No file can hold them. -/
namespace Flowchart

/-- A character, or a surrogate that stands alone. -/
inductive CodePoint where
  | char (c : Char)
  | surrogate (offset : Fin 0x800)
  deriving DecidableEq, Repr

namespace CodePoint

def char? : CodePoint → Option Char
  | char c => some c
  | surrogate _ => none

def surrogate? : CodePoint → Option (Fin 0x800)
  | char _ => none
  | surrogate offset => some offset

def isBlank : CodePoint → Bool
  | char c => Text.isBlank c
  | surrogate _ => false

end CodePoint

abbrev WideText := List CodePoint

/-- Why a text cannot be encoded: the first surrogates in it, and the characters in front of
them. -/
structure EncodingError where
  before : List Char
  surrogates : List (Fin 0x800)
  deriving DecidableEq, Repr

/-- What is said of surrogates at a place. -/
def EncodingError.message (e : EncodingError) (place : Nat) : String :=
  match e.surrogates with
  | [offset] =>
    "'utf-8' codec can't encode character '\\u" ++
      .ofList (Text.hexDigits 4 (0xD800 + offset.val)) ++ "' in position " ++ toString place ++
      ": surrogates not allowed"
  | offsets =>
    "'utf-8' codec can't encode characters in position " ++ toString place ++ "-" ++
      toString (place + offsets.length - 1) ++ ": surrogates not allowed"

namespace WideText

def ofString (s : String) : WideText :=
  s.toList.map .char

instance : Coe String WideText := ⟨ofString⟩

/-- The text without the blanks at both of its ends. -/
def trim (s : WideText) : WideText :=
  ((s.dropWhile (·.isBlank)).reverse.dropWhile (·.isBlank)).reverse

/-- The text without surrogates, if there are none. -/
def encode (s : WideText) : Except EncodingError String :=
  match s.dropWhile (·.char?.isSome) with
  | [] => .ok (.ofList (s.filterMap (·.char?)))
  | rest => .error {
      before := (s.takeWhile (·.char?.isSome)).filterMap (·.char?)
      surrogates := (rest.takeWhile (·.surrogate?.isSome)).filterMap (·.surrogate?) }

theorem encode_ofString (s : String) : (ofString s).encode = .ok s := by
  have hall : (s.toList.map CodePoint.char).dropWhile (·.char?.isSome) = [] := by
    induction s.toList with
    | nil => rfl
    | cons c rest ih => exact ih
  have hchars : (s.toList.map CodePoint.char).filterMap (·.char?) = s.toList := by
    rw [List.filterMap_map]
    exact List.filterMap_some
  rw [encode, ofString, hall, hchars, String.ofList_toList]

theorem ofString_append (s t : String) : ofString (s ++ t) = ofString s ++ ofString t := by
  rw [ofString, String.toList_append, List.map_append]
  rfl

end WideText
end Flowchart
