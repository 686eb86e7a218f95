/-! UTF-8: the bytes of a text, and the reading of bytes that may cut or break a character. -/
namespace Flowchart.Utf8

/-- The bytes of one character. -/
def encodeChar (c : Char) : List UInt8 :=
  let n := c.toNat
  if n < 0x80 then [.ofNat n]
  else if n < 0x800 then [.ofNat (0xC0 + n / 64), .ofNat (0x80 + n % 64)]
  else if n < 0x10000 then
    [.ofNat (0xE0 + n / 4096), .ofNat (0x80 + n / 64 % 64), .ofNat (0x80 + n % 64)]
  else
    [.ofNat (0xF0 + n / 262144), .ofNat (0x80 + n / 4096 % 64), .ofNat (0x80 + n / 64 % 64),
      .ofNat (0x80 + n % 64)]

def encode (s : List Char) : List UInt8 :=
  s.flatMap encodeChar

/-- How many bytes a character takes. -/
def width (c : Char) : Nat :=
  if c.toNat < 0x80 then 1 else if c.toNat < 0x800 then 2 else if c.toNat < 0x10000 then 3 else 4

theorem length_encodeChar (c : Char) : (encodeChar c).length = width c := by
  simp only [encodeChar, width]
  split
  · rfl
  · split
    · rfl
    · split <;> rfl

/-- A character of which `missing` bytes are still to come. The next one lies in `low … high`. -/
structure Pending where
  missing : Nat
  low : UInt8
  high : UInt8
  value : Nat
  deriving DecidableEq, Repr

/-- What a byte means between characters: a whole character, the first byte of a longer one
whose second byte is bounded so that no overlong form, surrogate or too large value arises, or
neither. -/
def start (b : UInt8) : List (Option Char) × Option Pending :=
  let n := b.toNat
  if n < 0x80 then ([some (.ofNat n)], none)
  else if 0xC2 ≤ n && n ≤ 0xDF then ([], some ⟨1, 0x80, 0xBF, n - 0xC0⟩)
  else if n == 0xE0 then ([], some ⟨2, 0xA0, 0xBF, 0⟩)
  else if n == 0xED then ([], some ⟨2, 0x80, 0x9F, 13⟩)
  else if 0xE1 ≤ n && n ≤ 0xEF then ([], some ⟨2, 0x80, 0xBF, n - 0xE0⟩)
  else if n == 0xF0 then ([], some ⟨3, 0x90, 0xBF, 0⟩)
  else if n == 0xF4 then ([], some ⟨3, 0x80, 0x8F, 4⟩)
  else if 0xF1 ≤ n && n ≤ 0xF3 then ([], some ⟨3, 0x80, 0xBF, n - 0xF0⟩)
  else ([none], none)

/-- One byte read after `pending`. A byte that does not continue the pending character ends it
as invalid and is then read on its own. -/
def feed : Option Pending → UInt8 → List (Option Char) × Option Pending
  | none, b => start b
  | some p, b =>
    if p.low ≤ b && b ≤ p.high then
      let value := p.value * 64 + (b.toNat - 0x80)
      if p.missing ≤ 1 then ([some (.ofNat value)], none)
      else ([], some ⟨p.missing - 1, 0x80, 0xBF, value⟩)
    else (none :: (start b).1, (start b).2)

def decodeFrom (pending : Option Pending) : List UInt8 → List (Option Char)
  | [] => if pending.isSome then [none] else []
  | b :: r => (feed pending b).1 ++ decodeFrom (feed pending b).2 r

/-- The characters of a byte sequence, with `none` for each maximal invalid part. -/
def decode (bytes : List UInt8) : List (Option Char) :=
  decodeFrom none bytes

/-- Reading that shows each invalid part as U+FFFD. -/
def decodeReplacing (bytes : List UInt8) : List Char :=
  (decode bytes).map (·.getD '\uFFFD')

/-- Reading that leaves invalid parts out. -/
def decodeDropping (bytes : List UInt8) : List Char :=
  (decode bytes).filterMap id

end Flowchart.Utf8
