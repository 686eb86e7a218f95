import Flowchart.Proofs.Script.LineTable
import Mathlib.Data.List.Induction
import Mathlib.Data.List.Infix
import Mathlib.Data.List.TakeWhile

/-! Places between the characters of a text. A stretch between two of them has the same characters
in the text and in its bytes, and lines and columns tell the text in front of a place. -/
namespace Flowchart

/-- `p` comes before `q` in a text: on an earlier line, or on the same one in front of it. -/
def Location.Before (p q : Location) : Prop :=
  p.line < q.line ∨ p.line = q.line ∧ p.column < q.column

open Utf8

/-- How many characters stand behind the last line feed of a text, or in all of it. -/
def lastColumn (s : List Char) : Nat :=
  (s.reverse.takeWhile (· ≠ '\n')).length

theorem lastColumn_concat_lineFeed (s : List Char) : lastColumn (s ++ ['\n']) = 0 := by
  rw [lastColumn, List.reverse_concat, List.takeWhile_cons_of_neg (by simp), List.length_nil]

theorem lastColumn_append_of_notMem {s s' : List Char} (h : '\n' ∉ s') :
    lastColumn (s ++ s') = lastColumn s + s'.length := by
  have hpos : ∀ c ∈ s'.reverse, decide (c ≠ '\n') = true := by
    intro c hc
    rw [decide_eq_true_iff]
    rintro rfl
    exact h (List.mem_reverse.mp hc)
  rw [lastColumn, List.reverse_append, List.takeWhile_append_of_pos hpos, List.length_append,
    List.length_reverse, Nat.add_comm, lastColumn]

/-- The last line of a text begins where its column says. -/
theorem lastColumn_spec {s : List Char} {first : Nat}
    (h : (0 :: s.idxsOf '\n' 1).getLast? = some first) : first + lastColumn s = s.length := by
  induction s using List.reverseRecOn generalizing first with
  | nil =>
    obtain rfl : 0 = first := Option.some.inj h
    rfl
  | append_singleton s c ih =>
    rw [List.idxsOf_append, List.idxsOf_cons, List.idxsOf_nil, ← List.cons_append] at h
    rw [List.length_append, List.length_singleton]
    by_cases hc : c = '\n'
    · rw [hc, if_pos (beq_self_eq_true _), List.getLast?_concat] at h
      obtain rfl : 1 + s.length = first := Option.some.inj h
      rw [hc, lastColumn_concat_lineFeed, Nat.add_zero, Nat.add_comm]
    · rw [if_neg (by simpa using hc), List.append_nil] at h
      rw [lastColumn_append_of_notMem (by simpa using Ne.symm hc), ← Nat.add_assoc, ih h,
        List.length_singleton]

namespace Source
variable (src : Source)

/-- `b` is a byte between two characters, or one of the two ends of the text. -/
def IsBoundary (b : Int) : Prop :=
  ∃ before, before <+: src.text ∧ b = (encode before).length

instance (b : Int) : Decidable (src.IsBoundary b) :=
  decidable_of_iff (∃ before ∈ src.text.inits, b = (encode before).length)
    (exists_congr fun _ => and_congr_left fun _ => List.mem_inits ..)

variable {src}

theorem take_bytes {before : List Char} (h : before <+: src.text) :
    src.bytes.take (encode before).length = encode before := by
  obtain ⟨after, h⟩ := h
  rw [src.bytes_eq, ← h, encode_append, List.take_left]

/-- The characters of a stretch are the characters of its bytes. -/
theorem slice_charOffset {a b : Int} (ha : src.IsBoundary a) (hb : src.IsBoundary b) :
    Text.slice (src.charOffset a) (src.charOffset b) src.text = src.charsOf ⟨a, b⟩ := by
  obtain ⟨s, hs, rfl⟩ := ha
  obtain ⟨s', hs', rfl⟩ := hb
  have htake : src.text.take s'.length = s' := (List.prefix_iff_eq_take.mp hs').symm
  rw [src.charOffset_length_encode hs, src.charOffset_length_encode hs', charsOf, bytesOf,
    Text.slice_natCast, Text.slice_natCast, take_bytes hs', htake]
  rcases List.prefix_or_prefix_of_prefix hs hs' with ⟨between, rfl⟩ | ⟨between, rfl⟩
  · rw [encode_append, List.drop_left, List.drop_left, decodeReplacing_encode]
  · rw [encode_append, List.length_append, List.length_append,
      List.drop_of_length_le (Nat.le_add_right ..), List.drop_of_length_le (Nat.le_add_right ..)]
    rfl

/-- The lines up to a place begin at the start of the text and behind the line feeds in front of
the place. -/
theorem map_char_takeWhile_lines {before : List Char} (h : before <+: src.text) :
    (src.lines.takeWhile (·.char ≤ before.length)).map (·.char) = 0 :: before.idxsOf '\n' 1 := by
  obtain ⟨after, h⟩ := h
  have hlines : src.lines.map (·.char) =
      (0 :: before.idxsOf '\n' 1) ++ after.idxsOf '\n' (1 + before.length) := by
    rw [src.lines_eq, map_char_lineStarts, ← h, List.idxsOf_append, List.cons_append]
  have hbefore : ∀ k ∈ 0 :: before.idxsOf '\n' 1, decide (k ≤ before.length) = true := by
    rw [List.forall_mem_cons]
    refine ⟨by simp, fun k hk => decide_eq_true ?_⟩
    have hlt := List.lt_add_of_mem_idxsOf k hk
    omega
  have hafter :
      (after.idxsOf '\n' (1 + before.length)).takeWhile (fun k => k ≤ before.length) = [] := by
    rw [List.takeWhile_eq_nil_iff]
    intro hl hle
    have hge := List.ge_of_mem_idxsOf _ (List.get_mem _ ⟨0, hl⟩)
    have hle := of_decide_eq_true hle
    omega
  calc (src.lines.takeWhile (·.char ≤ before.length)).map (·.char)
      = (src.lines.map (·.char)).takeWhile (fun k => k ≤ before.length) := by
        rw [List.takeWhile_map]
        rfl
    _ = 0 :: before.idxsOf '\n' 1 := by
        rw [hlines, List.takeWhile_append_of_pos hbefore, hafter, List.append_nil]

/-- The line of a place counts the line feeds in front of it, its column the characters behind the
last one of them. -/
theorem location_length_encode {before : List Char} (h : before <+: src.text) :
    src.location (encode before).length = ⟨1 + before.count '\n', lastColumn before⟩ := by
  obtain ⟨upToHere, hup⟩ : ∃ upToHere,
      src.lines.takeWhile (·.char ≤ before.length) = upToHere := ⟨_, rfl⟩
  have hmap := hup ▸ map_char_takeWhile_lines h
  have hlength : upToHere.length = 1 + before.count '\n' := by
    rw [← List.length_map, hmap, List.length_cons, List.length_idxsOf, Nat.add_comm, List.count]
  have hlast : (src.lastLine upToHere).char + lastColumn before = before.length := by
    refine lastColumn_spec ?_
    rw [← hmap, List.getLast?_map, lastLine]
    cases hne : upToHere.getLast? with
    | some l => rfl
    | none =>
      rw [List.getLast?_eq_none_iff.mp hne, List.length_nil] at hlength
      omega
  rw [location, src.charOffset_length_encode h]
  simp only [Int.ofNat_le, hup, hlength, Location.mk.injEq]
  omega

/-- Of two places the earlier one has the earlier location. -/
theorem location_before {a b : Int} (ha : src.IsBoundary a) (hb : src.IsBoundary b) (hab : a < b) :
    (src.location a).Before (src.location b) := by
  obtain ⟨s, hs, rfl⟩ := ha
  obtain ⟨s', hs', rfl⟩ := hb
  rw [location_length_encode hs, location_length_encode hs']
  rcases List.prefix_or_prefix_of_prefix hs hs' with ⟨between, rfl⟩ | ⟨between, rfl⟩
  · rw [encode_append, List.length_append] at hab
    have hne : 0 < between.length := by
      cases between with
      | nil => exact absurd hab (by simp [encode])
      | cons c between => exact Nat.zero_lt_succ _
    by_cases hmem : '\n' ∈ between
    · have hcount := List.count_pos_iff.mpr hmem
      left
      dsimp only
      rw [List.count_append]
      omega
    · right
      dsimp only
      rw [List.count_append, List.count_eq_zero.mpr hmem, lastColumn_append_of_notMem hmem]
      omega
  · rw [encode_append, List.length_append] at hab
    omega

end Source
end Flowchart
