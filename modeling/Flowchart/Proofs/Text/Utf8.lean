import Flowchart.Text.Utf8
import Mathlib.Data.List.Basic

/-! What is encoded is read back. -/
namespace Flowchart.Utf8

/-- A byte after the first one of a character. It holds six bits. -/
def tailByte (bits : Nat) : UInt8 :=
  .ofNat (0x80 + bits)

theorem toNat_tailByte {bits : Nat} (h : bits < 64) : (tailByte bits).toNat = 0x80 + bits := by
  rw [tailByte, UInt8.toNat_ofNat']
  omega

section

variable {value bits missing : Nat} {low high : UInt8}

theorem feed_tailByte (hbits : bits < 64) (hlow : low.toNat ≤ 0x80 + bits)
    (hhigh : 0x80 + bits ≤ high.toNat) :
    feed (some ⟨missing, low, high, value⟩) (tailByte bits) =
      if missing ≤ 1 then ([some (.ofNat (value * 64 + bits))], none)
      else ([], some ⟨missing - 1, 0x80, 0xBF, value * 64 + bits⟩) := by
  have hbyte := toNat_tailByte hbits
  have hbounds : low ≤ tailByte bits ∧ tailByte bits ≤ high := by
    rw [UInt8.le_iff_toNat_le, UInt8.le_iff_toNat_le, hbyte]
    exact ⟨hlow, hhigh⟩
  simp only [feed, hbounds.1, hbounds.2, decide_true, Bool.and_self, if_true, hbyte,
    Nat.add_sub_cancel_left]

theorem decodeFrom_cons (pending : Option Pending) (b : UInt8) (rest : List UInt8) :
    decodeFrom pending (b :: rest) =
      (feed pending b).1 ++ decodeFrom (feed pending b).2 rest :=
  rfl

/-- The last byte of a character ends it. -/
theorem decodeFrom_last (hbits : bits < 64) (hlow : low.toNat ≤ 0x80 + bits)
    (hhigh : 0x80 + bits ≤ high.toNat) (rest : List UInt8) :
    decodeFrom (some ⟨1, low, high, value⟩) (tailByte bits :: rest) =
      some (.ofNat (value * 64 + bits)) :: decode rest := by
  rw [decodeFrom_cons, feed_tailByte hbits hlow hhigh, if_pos (Nat.le_refl 1)]
  rfl

/-- A byte before the last one adds six bits to the character. -/
theorem decodeFrom_inner (hbits : bits < 64) (hlow : low.toNat ≤ 0x80 + bits)
    (hhigh : 0x80 + bits ≤ high.toNat) (rest : List UInt8) :
    decodeFrom (some ⟨missing + 2, low, high, value⟩) (tailByte bits :: rest) =
      decodeFrom (some ⟨missing + 1, 0x80, 0xBF, value * 64 + bits⟩) rest := by
  rw [decodeFrom_cons, feed_tailByte hbits hlow hhigh, if_neg (by omega)]
  rfl

theorem decode_cons (b : UInt8) (rest : List UInt8) :
    decode (b :: rest) = (start b).1 ++ decodeFrom (start b).2 rest :=
  rfl

/-- The byte of a short character. -/
theorem start_one (h : value < 0x80) : start (.ofNat value) = ([some (.ofNat value)], none) := by
  have hall : ∀ value < 0x80, start (.ofNat value) = ([some (.ofNat value)], none) := by decide
  exact hall value h

/-- The first byte of a character of two bytes. -/
theorem start_two (hlow : 2 ≤ value) (hhigh : value < 32) :
    start (.ofNat (0xC0 + value)) = ([], some ⟨1, 0x80, 0xBF, value⟩) := by
  have hall : ∀ value < 32, 2 ≤ value →
      start (.ofNat (0xC0 + value)) = ([], some ⟨1, 0x80, 0xBF, value⟩) := by decide
  exact hall value hhigh hlow

/-- The first byte of a character of three bytes. -/
theorem start_three (h : value < 16) :
    start (.ofNat (0xE0 + value)) =
      ([], some ⟨2, if value = 0 then 0xA0 else 0x80, if value = 13 then 0x9F else 0xBF,
        value⟩) := by
  have hall : ∀ value < 16, start (.ofNat (0xE0 + value)) =
      ([], some ⟨2, if value = 0 then 0xA0 else 0x80, if value = 13 then 0x9F else 0xBF,
        value⟩) := by decide
  exact hall value h

/-- The first byte of a character of four bytes. -/
theorem start_four (h : value < 5) :
    start (.ofNat (0xF0 + value)) =
      ([], some ⟨3, if value = 0 then 0x90 else 0x80, if value = 4 then 0x8F else 0xBF,
        value⟩) := by
  have hall : ∀ value < 5, start (.ofNat (0xF0 + value)) =
      ([], some ⟨3, if value = 0 then 0x90 else 0x80, if value = 4 then 0x8F else 0xBF,
        value⟩) := by decide
  exact hall value h

end

theorem decode_encodeChar_append (c : Char) (rest : List UInt8) :
    decode (encodeChar c ++ rest) = some c :: decode rest := by
  obtain ⟨n, hn⟩ : ∃ n, c.toNat = n := ⟨_, rfl⟩
  have hc : Char.ofNat n = c := by rw [← hn, Char.ofNat_toNat]
  have hvalid : n < 0xD800 ∨ 0xDFFF < n ∧ n < 0x110000 := hn ▸ c.valid
  have hbits (k : Nat) : k % 64 < 64 := Nat.mod_lt k (by decide)
  rw [encodeChar, hn]
  split
  · rename_i hone
    rw [List.singleton_append, decode_cons, start_one hone, hc]
    rfl
  split
  · rename_i hone htwo
    have hvalue : n / 64 * 64 + n % 64 = n := by omega
    change decode (.ofNat (0xC0 + n / 64) :: tailByte (n % 64) :: rest) = _
    rw [decode_cons, start_two (by omega) (by omega), List.nil_append,
      decodeFrom_last (hbits n) (by simp) (by simp; omega), hvalue, hc]
  split
  · rename_i htwo hthree
    have hvalue : (n / 4096 * 64 + n / 64 % 64) * 64 + n % 64 = n := by omega
    change decode (.ofNat (0xE0 + n / 4096) :: tailByte (n / 64 % 64) ::
      tailByte (n % 64) :: rest) = _
    rw [decode_cons, start_three (by omega), List.nil_append,
      decodeFrom_inner (hbits (n / 64)) (by split <;> simp; omega) (by split <;> simp <;> omega),
      decodeFrom_last (hbits n) (by simp) (by simp; omega), hvalue, hc]
  · rename_i hthree
    have hvalue : ((n / 262144 * 64 + n / 4096 % 64) * 64 + n / 64 % 64) * 64 + n % 64 = n := by
      omega
    change decode (.ofNat (0xF0 + n / 262144) :: tailByte (n / 4096 % 64) ::
      tailByte (n / 64 % 64) :: tailByte (n % 64) :: rest) = _
    rw [decode_cons, start_four (by omega), List.nil_append,
      decodeFrom_inner (hbits (n / 4096)) (by split <;> simp; omega) (by split <;> simp <;> omega),
      decodeFrom_inner (hbits (n / 64)) (by simp) (by simp; omega),
      decodeFrom_last (hbits n) (by simp) (by simp; omega), hvalue, hc]

theorem decode_encode (s : List Char) : decode (encode s) = s.map some := by
  induction s with
  | nil => rfl
  | cons c rest ih =>
    rw [encode, List.flatMap_cons, decode_encodeChar_append, List.map_cons]
    exact congrArg _ ih

theorem decodeDropping_encode (s : List Char) : decodeDropping (encode s) = s := by
  rw [decodeDropping, decode_encode, List.filterMap_map]
  exact List.filterMap_some

theorem decodeReplacing_encode (s : List Char) : decodeReplacing (encode s) = s := by
  rw [decodeReplacing, decode_encode, List.map_map]
  exact List.map_id s

end Flowchart.Utf8
