import Flowchart.Proofs.Script.Offsets

/-! The line table of a text: its bytes are the places behind the line feeds of the encoded text,
its characters those of the text itself. -/
namespace Flowchart

namespace Utf8

/-- The byte of a line feed is part of no other character. -/
theorem lineFeed_mem_encodeChar {c : Char} : 0x0A ∈ encodeChar c ↔ c = '\n' := by
  obtain ⟨n, hn⟩ : ∃ n, c.toNat = n := ⟨_, rfl⟩
  have hvalid : n < 0xD800 ∨ 0xDFFF < n ∧ n < 0x110000 := hn ▸ c.valid
  have hbyte (k : Nat) : (0x0A : UInt8) = .ofNat k ↔ k % 256 = 10 := by
    rw [← UInt8.toNat_inj, UInt8.toNat_ofNat', eq_comm]
    rfl
  have hc : c = '\n' ↔ n = 10 := by
    rw [← hn, ← Char.toNat_inj]
    rfl
  rw [hc, encodeChar, hn]
  split_ifs <;> simp only [List.mem_cons, List.not_mem_nil, or_false, hbyte] <;> omega

theorem idxsOf_encodeChar (c : Char) (start : Nat) :
    (encodeChar c).idxsOf 0x0A start = if c = '\n' then [start] else [] := by
  split_ifs with hc
  · subst hc
    rfl
  · rw [List.idxsOf_eq_nil_iff]
    rintro b hb
    rw [beq_eq_false_iff_ne]
    rintro rfl
    exact hc (lineFeed_mem_encodeChar.mp hb)

end Utf8

open Utf8

theorem map_char_lineStartsFrom (pos : LineStart) (text : List Char) :
    (lineStartsFrom pos text).map (·.char) = text.idxsOf '\n' (pos.char + 1) := by
  induction text generalizing pos with
  | nil => rfl
  | cons c r ih =>
    rw [lineStartsFrom, List.idxsOf_cons]
    simp only [beq_iff_eq]
    split_ifs
    · rw [List.map_cons, ih]
    · rw [ih]

theorem map_byte_lineStartsFrom (pos : LineStart) (text : List Char) :
    (lineStartsFrom pos text).map (·.byte) = (encode text).idxsOf 0x0A (pos.byte + 1) := by
  induction text generalizing pos with
  | nil => rfl
  | cons c r ih =>
    have hnext : pos.byte + width c + 1 = pos.byte + 1 + width c := Nat.add_right_comm ..
    rw [lineStartsFrom, encode_cons, List.idxsOf_append, idxsOf_encodeChar, length_encodeChar]
    split_ifs with hc
    · rw [List.map_cons, ih, hnext, hc]
      rfl
    · rw [ih, hnext, List.nil_append]

/-- The places where the lines of a text begin, in characters. -/
theorem map_char_lineStarts (text : List Char) :
    (lineStarts text).map (·.char) = 0 :: text.idxsOf '\n' 1 := by
  rw [lineStarts, List.map_cons, map_char_lineStartsFrom]

/-- The places where the lines of a text begin, in bytes. -/
theorem map_byte_lineStarts (text : List Char) :
    (lineStarts text).map (·.byte) = 0 :: (encode text).idxsOf 0x0A 1 := by
  rw [lineStarts, List.map_cons, map_byte_lineStartsFrom]

namespace Utf8

theorem width_pos (c : Char) : 0 < width c := by
  rw [width]
  split_ifs <;> decide

theorem wholeChars_zero (s : List Char) : wholeChars 0 s = 0 := by
  cases s with
  | nil => rfl
  | cons c s => rw [wholeChars, if_neg (Nat.not_le.mpr (width_pos c))]

/-- The bytes in front of a place hold the characters in front of it. -/
theorem wholeChars_length_encode (before after : List Char) :
    wholeChars (encode before).length (before ++ after) = before.length := by
  have h := wholeChars_append before after 0
  rwa [wholeChars_zero, Nat.add_zero] at h

/-- The characters that lie wholly in the first bytes are those that end there or before. -/
theorem wholeChars_eq_countP (b : Nat) (s : List Char) : wholeChars b s =
    (List.range s.length).countP fun i => (encode (s.take (i + 1))).length ≤ b := by
  induction s generalizing b with
  | nil => rfl
  | cons c s ih =>
    have hlength (i : Nat) : (encode ((c :: s).take (i + 1 + 1))).length =
        width c + (encode (s.take (i + 1))).length := by
      rw [List.take_succ_cons, length_encode_cons]
    have hfirst : (encode ((c :: s).take (0 + 1))).length = width c := by
      rw [List.take_succ_cons, length_encode_cons, List.take_zero]
      rfl
    rw [wholeChars, List.length_cons, List.range_succ_eq_map, List.countP_cons, List.countP_map]
    simp only [Function.comp_def, Nat.succ_eq_add_one, hlength, hfirst, decide_eq_true_eq]
    split_ifs with hb
    · rw [ih]
      congr 2
      funext i
      exact decide_eq_decide.mpr (by omega)
    · refine (List.countP_eq_zero.mpr fun i _ => ?_).symm
      rw [decide_eq_true_eq]
      omega

section
variable {c : Char} {s : List Char}

theorem width_of_lt (h : c.toNat < 0x80) : width c = 1 :=
  if_pos h

theorem isAscii_cons : isAscii (c :: s) ↔ c.toNat < 0x80 ∧ isAscii s := by
  rw [isAscii, List.all_cons, Bool.and_eq_true, decide_eq_true_iff]
  rfl

theorem length_encode_of_isAscii (h : isAscii s) : (encode s).length = s.length := by
  induction s with
  | nil => rfl
  | cons c s ih =>
    obtain ⟨hc, hs⟩ := isAscii_cons.mp h
    rw [length_encode_cons, width_of_lt hc, ih hs, List.length_cons, Nat.add_comm]

theorem wholeChars_of_isAscii (h : isAscii s) {b : Nat} (hb : b ≤ s.length) :
    wholeChars b s = b := by
  induction s generalizing b with
  | nil => exact (Nat.le_zero.mp hb).symm
  | cons c s ih =>
    obtain ⟨hc, hs⟩ := isAscii_cons.mp h
    cases b with
    | zero => exact wholeChars_zero _
    | succ b =>
      rw [wholeChars, width_of_lt hc, if_pos (Nat.le_add_left 1 b), Nat.add_sub_cancel,
        ih hs (Nat.le_of_succ_le_succ hb)]

end
end Utf8

namespace Source
variable (src : Source)

theorem length_bytes : src.bytes.length = (encode src.text).length := by
  rw [src.bytes_eq]

/-- Both ways to look an offset up agree inside of the text. -/
theorem charOffset_eq_wholeChars {b : Nat} (hb : b ≤ src.bytes.length) :
    src.charOffset b = wholeChars b src.text := by
  rw [charOffset, charOffsetByLine_eq]
  split_ifs with hascii
  · rw [src.ascii_eq] at hascii
    rw [length_bytes, length_encode_of_isAscii hascii] at hb
    rw [wholeChars_of_isAscii hascii hb]
  · rfl

theorem charOffset_length_encode {before : List Char} (h : before <+: src.text) :
    src.charOffset (encode before).length = before.length := by
  obtain ⟨after, h⟩ := h
  have hb : (encode before).length ≤ src.bytes.length := by
    rw [length_bytes, ← h, encode_append, List.length_append]
    exact Nat.le_add_right ..
  rw [charOffset_eq_wholeChars src hb, ← h, wholeChars_length_encode]

/-- The character offset of a byte is the number of the characters whose bytes end there or before,
also when the byte is inside of a character. The offsets of an ASCII text can be looked up in the
line table as well, offsets keep the order of the bytes, and each place between characters has its
index. The line table tells the places behind the line feeds, in bytes and in characters. -/
theorem charOffset_eq_countP :
    (∀ b : Nat, b ≤ src.bytes.length → src.charOffset b =
      (List.range src.text.length).countP fun i => (encode (src.text.take (i + 1))).length ≤ b) ∧
    (isAscii src.text → ∀ b : Nat, b ≤ src.bytes.length →
      src.charOffset b = b ∧ src.charOffsetByLine b = b) ∧
    (∀ a b : Nat, a ≤ b → src.charOffset a ≤ src.charOffset b) ∧
    (∀ i ≤ src.text.length, src.charOffset (encode (src.text.take i)).length = i) ∧
    src.lines.map (·.byte) = 0 :: src.bytes.idxsOf 0x0A 1 ∧
    src.lines.map (·.char) = 0 :: src.text.idxsOf '\n' 1 := by
  refine ⟨fun b hb => ?_, fun hascii b hb => ?_, fun a b hab => ?_, fun i hi => ?_, ?_, ?_⟩
  · rw [src.charOffset_eq_wholeChars hb, wholeChars_eq_countP]
  · have hlength := hb
    rw [length_bytes, length_encode_of_isAscii hascii] at hlength
    rw [src.charOffset_eq_wholeChars hb, charOffsetByLine_eq, wholeChars_of_isAscii hascii hlength]
    exact ⟨rfl, rfl⟩
  · exact src.charOffset_mono (Int.natCast_nonneg a) (Int.ofNat_le.mpr hab)
  · rw [src.charOffset_length_encode (List.take_prefix i src.text), List.length_take,
      Nat.min_eq_left hi]
  · rw [src.lines_eq, src.bytes_eq, map_byte_lineStarts]
  · rw [src.lines_eq, map_char_lineStarts]

/-- A text with characters of one to four bytes, on three lines. -/
def mixedWidths : Source :=
  ofString "é\na€\n😀b"

theorem charOffset_eq_countP_mixedWidths :
    (List.range (mixedWidths.bytes.length + 1)).map (fun b : Nat => mixedWidths.charOffset b) =
      [0, 0, 1, 2, 3, 3, 3, 4, 5, 5, 5, 5, 6, 7] ∧
    (∀ b : Nat, b ≤ mixedWidths.bytes.length → mixedWidths.charOffset b =
      (List.range mixedWidths.text.length).countP fun i =>
        (encode (mixedWidths.text.take (i + 1))).length ≤ b) ∧
    (isAscii mixedWidths.text → ∀ b : Nat, b ≤ mixedWidths.bytes.length →
      mixedWidths.charOffset b = b ∧ mixedWidths.charOffsetByLine b = b) ∧
    (∀ a b : Nat, a ≤ b → mixedWidths.charOffset a ≤ mixedWidths.charOffset b) ∧
    (∀ i ≤ mixedWidths.text.length,
      mixedWidths.charOffset (encode (mixedWidths.text.take i)).length = i) ∧
    mixedWidths.lines.map (·.byte) = [0, 3, 8] ∧ mixedWidths.lines.map (·.char) = [0, 2, 5] := by
  obtain ⟨hcount, hascii, hmono, hindex, hbytes, hchars⟩ := mixedWidths.charOffset_eq_countP
  exact ⟨by decide +kernel, hcount, hascii, hmono, hindex, hbytes.trans (by decide +kernel),
    hchars.trans (by decide +kernel)⟩

end Source
end Flowchart
