import Flowchart.Proofs.Text.Utf8
import Flowchart.Script.Source

/-! The character offset of a byte counts the characters that end at or before it, so that offsets
keep the order of the bytes. -/
namespace Flowchart

namespace Utf8

theorem encode_cons (c : Char) (s : List Char) : encode (c :: s) = encodeChar c ++ encode s :=
  rfl

theorem encode_append (s s' : List Char) : encode (s ++ s') = encode s ++ encode s' :=
  List.flatMap_append

theorem length_encode_cons (c : Char) (s : List Char) :
    (encode (c :: s)).length = width c + (encode s).length := by
  rw [encode_cons, List.length_append, length_encodeChar]

/-- How many characters of a text lie wholly in its first `b` bytes. -/
def wholeChars (b : Nat) : List Char → Nat
  | [] => 0
  | c :: cs => if width c ≤ b then wholeChars (b - width c) cs + 1 else 0

theorem wholeChars_mono {a b : Nat} (h : a ≤ b) (s : List Char) :
    wholeChars a s ≤ wholeChars b s := by
  induction s generalizing a b with
  | nil => exact Nat.le_refl _
  | cons c cs ih =>
    rw [wholeChars, wholeChars]
    split_ifs with ha hb
    · exact Nat.add_le_add_right (ih (Nat.sub_le_sub_right h _)) 1
    · exact absurd (Nat.le_trans ha h) hb
    · exact Nat.zero_le _
    · exact Nat.le_refl _

theorem wholeChars_append (pre post : List Char) (b : Nat) :
    wholeChars ((encode pre).length + b) (pre ++ post) = pre.length + wholeChars b post := by
  induction pre with
  | nil => simp [encode]
  | cons c pre ih =>
    rw [length_encode_cons, Nat.add_assoc, List.cons_append, wholeChars,
      if_pos (Nat.le_add_right ..), Nat.add_sub_cancel_left, ih, List.length_cons]
    omega

/-! A character is read with its last byte only: reading never ends on a byte without telling
something, and a whole character tells one thing. -/

theorem isSome_of_start_eq_nil {b : UInt8} (h : (start b).1 = []) : (start b).2.isSome := by
  simp only [start] at h ⊢
  split_ifs at h ⊢ <;> rfl

theorem isSome_of_feed_eq_nil {pending : Option Pending} {b : UInt8}
    (h : (feed pending b).1 = []) : (feed pending b).2.isSome := by
  cases pending with
  | none => exact isSome_of_start_eq_nil h
  | some p =>
    simp only [feed] at h ⊢
    split_ifs at h ⊢
    rfl

theorem decodeFrom_ne_nil {pending : Option Pending} {bytes : List UInt8}
    (h : pending.isSome ∨ bytes ≠ []) : decodeFrom pending bytes ≠ [] := by
  induction bytes generalizing pending with
  | nil =>
    rw [decodeFrom, if_pos (h.resolve_right (by simp))]
    exact List.cons_ne_nil _ _
  | cons b rest ih =>
    intro hnil
    obtain ⟨hfeed, hrest⟩ := List.append_eq_nil_iff.mp hnil
    exact ih (.inl (isSome_of_feed_eq_nil hfeed)) hrest

/-- What the first bytes tell does not depend on the other ones. -/
theorem exists_decodeFrom_append (pending : Option Pending) (front : List UInt8) :
    ∃ told pending', ∀ rest, decodeFrom pending (front ++ rest) =
      told ++ decodeFrom pending' rest := by
  induction front generalizing pending with
  | nil => exact ⟨[], pending, fun _ => rfl⟩
  | cons b front ih =>
    obtain ⟨told, pending', h⟩ := ih (feed pending b).2
    refine ⟨(feed pending b).1 ++ told, pending', fun rest => ?_⟩
    rw [List.cons_append, decodeFrom_cons, h, List.append_assoc]

/-- A character of which bytes are missing is left out. -/
theorem decodeDropping_take_encodeChar {c : Char} {b : Nat} (hb : b < width c) :
    decodeDropping ((encodeChar c).take b) = [] := by
  obtain ⟨told, pending, h⟩ := exists_decodeFrom_append none ((encodeChar c).take b)
  have hrest : (encodeChar c).drop b ≠ [] := by
    rw [Ne, List.drop_eq_nil_iff, length_encodeChar]
    omega
  have hwhole : told ++ decodeFrom pending ((encodeChar c).drop b) = [some c] := by
    rw [← h, List.take_append_drop, ← List.append_nil (encodeChar c)]
    exact decode_encodeChar_append c []
  have htold : told = [] := by
    rcases List.append_eq_singleton_iff.mp hwhole with ⟨htold, -⟩ | ⟨-, hnil⟩
    · exact htold
    · exact absurd hnil (decodeFrom_ne_nil (.inr hrest))
  have hcut := h []
  rw [List.append_nil, htold, List.nil_append] at hcut
  rw [decodeDropping, decode, hcut]
  cases pending <;> rfl

theorem length_decodeDropping_take (s : List Char) (b : Nat) :
    (decodeDropping ((encode s).take b)).length = wholeChars b s := by
  induction s generalizing b with
  | nil => simp [encode, decodeDropping, decode, decodeFrom, wholeChars]
  | cons c cs ih =>
    rw [encode_cons, List.take_append, length_encodeChar, wholeChars]
    split_ifs with hb
    · have hwhole : (encodeChar c).take b = encodeChar c :=
        List.take_of_length_le (by rwa [length_encodeChar])
      rw [hwhole, ← ih, decodeDropping, decode_encodeChar_append]
      rfl
    · have hrest : b - width c = 0 := by omega
      rw [hrest, List.take_zero, List.append_nil, decodeDropping_take_encodeChar (by omega)]
      rfl

end Utf8

open Utf8

/-- The line table tells the bytes and the characters of the text in front of a line. -/
theorem split_of_mem_lineStartsFrom {pos l : LineStart} {text : List Char}
    (h : l ∈ lineStartsFrom pos text) : ∃ pre post, text = pre ++ post ∧
      l = ⟨pos.byte + (encode pre).length, pos.char + pre.length⟩ := by
  induction text generalizing pos with
  | nil => exact absurd h List.not_mem_nil
  | cons c r ih =>
    -- A line starts right after this character or in the rest of the text.
    have hcases : l = ⟨pos.byte + width c, pos.char + 1⟩ ∨
        l ∈ lineStartsFrom ⟨pos.byte + width c, pos.char + 1⟩ r := by
      rw [lineStartsFrom] at h
      split_ifs at h with hc
      · exact List.mem_cons.mp h
      · exact .inr h
    rcases hcases with rfl | h
    · exact ⟨[c], r, rfl, by rw [length_encode_cons]; rfl⟩
    · obtain ⟨pre, post, rfl, rfl⟩ := ih h
      refine ⟨c :: pre, post, rfl, ?_⟩
      rw [length_encode_cons, List.length_cons, Nat.add_assoc, Nat.add_assoc, Nat.add_comm 1]

theorem split_of_mem_lineStarts {l : LineStart} {text : List Char} (h : l ∈ lineStarts text) :
    ∃ pre post, text = pre ++ post ∧ l = ⟨(encode pre).length, pre.length⟩ := by
  rcases List.mem_cons.mp h with rfl | h
  · exact ⟨[], text, rfl, rfl⟩
  · simpa using split_of_mem_lineStartsFrom h

namespace Source
variable (src : Source)

theorem lineAtByte_spec (b : Nat) :
    src.lineAtByte b ∈ lineStarts src.text ∧ (src.lineAtByte b).byte ≤ b := by
  obtain ⟨rest, hlines⟩ : ∃ rest, src.lines.takeWhile (fun l => decide ((l.byte : Int) ≤ b)) =
      ⟨0, 0⟩ :: rest := by
    rw [src.lines_eq, lineStarts]
    exact ⟨_, List.takeWhile_cons_of_pos (by simp)⟩
  have hmem : src.lineAtByte b ∈ src.lines.takeWhile (fun l => decide ((l.byte : Int) ≤ b)) := by
    rw [lineAtByte, lastLine, hlines, List.getLast?_eq_some_getLast (List.cons_ne_nil _ _)]
    exact List.getLast_mem _
  refine ⟨src.lines_eq ▸ (List.takeWhile_prefix _).subset hmem, ?_⟩
  have hbyte := List.all_eq_true.mp List.all_takeWhile _ hmem
  rw [decide_eq_true_iff] at hbyte
  exact Int.ofNat_le.mp hbyte

theorem charOffsetByLine_eq (b : Nat) : src.charOffsetByLine b = wholeChars b src.text := by
  obtain ⟨hmem, hle⟩ := src.lineAtByte_spec b
  obtain ⟨pre, post, htext, hline⟩ := split_of_mem_lineStarts hmem
  rw [hline] at hle
  obtain ⟨k, rfl⟩ := Nat.exists_eq_add_of_le hle
  have hbytes : src.bytes = encode pre ++ encode post := by
    rw [src.bytes_eq, htext, encode_append]
  rw [charOffsetByLine, hline, bytesOf, Text.slice_natCast, hbytes, List.take_length_add_append,
    List.drop_left, length_decodeDropping_take, htext, wholeChars_append]

/-- Offsets keep the order of the bytes of a text. -/
theorem charOffset_mono {a b : Int} (ha : 0 ≤ a) (hab : a ≤ b) :
    src.charOffset a ≤ src.charOffset b := by
  obtain ⟨i, rfl⟩ := Int.eq_ofNat_of_zero_le ha
  obtain ⟨j, rfl⟩ := Int.eq_ofNat_of_zero_le (Int.le_trans ha hab)
  rw [charOffset, charOffset]
  split_ifs
  · exact hab
  · rw [charOffsetByLine_eq, charOffsetByLine_eq]
    exact Int.ofNat_le.mpr (wholeChars_mono (Int.ofNat_le.mp hab) _)

end Source
end Flowchart
