import Flowchart.Batch.Run
import Mathlib.Data.List.TakeDrop

/-! The text of a file has one character for each of its line ends, also for those that take two
characters in the file. -/
namespace Flowchart.Batch

/-- The line ends that take two characters. -/
def lineEndPairs : List Char → Nat
  | '\r' :: '\n' :: r => lineEndPairs r + 1
  | _ :: r => lineEndPairs r
  | [] => 0

/-- Where in a file the character `i` of its text is. -/
def fileOffset : List Char → Nat → Nat
  | _, 0 => 0
  | '\r' :: '\n' :: r, i + 1 => fileOffset r i + 2
  | _ :: r, i + 1 => fileOffset r i + 1
  | [], i + 1 => i + 1

variable {c : Char} {r : List Char}

/-- `c` and the start of `r` are no line end together. -/
def IsApart (c : Char) (r : List Char) : Prop :=
  ∀ r', c = '\r' → r = '\n' :: r' → False

theorem IsApart.take (h : IsApart c r) (k : Nat) : IsApart c (r.take k) := by
  intro r' hc hr
  obtain ⟨s, hs⟩ := hr ▸ r.take_prefix k
  exact h _ hc hs.symm

theorem IsApart.unifyLineEnds_cons (h : IsApart c r) :
    unifyLineEnds (c :: r) = (if c = '\r' then '\n' else c) :: unifyLineEnds r := by
  split_ifs with hc
  · subst hc
    rw [unifyLineEnds]
    exact fun r' => h r' rfl
  · rw [unifyLineEnds]
    · exact h
    · exact hc

theorem IsApart.lineEndPairs_cons (h : IsApart c r) : lineEndPairs (c :: r) = lineEndPairs r := by
  rw [lineEndPairs]
  exact h

theorem IsApart.fileOffset_cons (h : IsApart c r) (i : Nat) :
    fileOffset (c :: r) (i + 1) = fileOffset r i + 1 := by
  rw [fileOffset]
  exact h

@[simp] theorem fileOffset_zero (content : List Char) : fileOffset content 0 = 0 := by
  rw [fileOffset]

@[simp] theorem fileOffset_nil (i : Nat) : fileOffset [] i = i := by
  cases i <;> simp [fileOffset]

/-- A place in the file is as far behind its place in the text as there are pairs in front of it. -/
theorem fileOffset_eq (content : List Char) (i : Nat) :
    fileOffset content i = i + lineEndPairs (content.take (fileOffset content i)) := by
  fun_induction fileOffset content i with
  | case1 => rfl
  | case2 r i ih =>
    rw [List.take_succ_cons, List.take_succ_cons, lineEndPairs]
    omega
  | case3 c r i h ih =>
    rw [List.take_succ_cons, (IsApart.take h _).lineEndPairs_cons]
    omega
  | case4 i => simp [lineEndPairs]

/-! What is in front of a place of the file, and what is behind it, becomes what is in front of its
place in the text and behind it. -/

theorem unifyLineEnds_take (content : List Char) (i : Nat) :
    unifyLineEnds (content.take (fileOffset content i)) = (unifyLineEnds content).take i := by
  fun_induction fileOffset content i with
  | case1 => rfl
  | case2 r i ih =>
    rw [List.take_succ_cons, List.take_succ_cons, unifyLineEnds, ih]
    rfl
  | case3 c r i h ih =>
    rw [List.take_succ_cons, (IsApart.take h _).unifyLineEnds_cons, ih,
      IsApart.unifyLineEnds_cons h, List.take_succ_cons]
  | case4 i => rfl

theorem unifyLineEnds_drop (content : List Char) (i : Nat) :
    unifyLineEnds (content.drop (fileOffset content i)) = (unifyLineEnds content).drop i := by
  fun_induction fileOffset content i with
  | case1 => rfl
  | case2 r i ih =>
    rw [List.drop_succ_cons, List.drop_succ_cons, unifyLineEnds, ih]
    rfl
  | case3 c r i h ih =>
    rw [List.drop_succ_cons, ih, IsApart.unifyLineEnds_cons h, List.drop_succ_cons]
  | case4 i => rfl

theorem fileOffset_add (content : List Char) (i k : Nat) :
    fileOffset content (i + k) =
      fileOffset content i + fileOffset (content.drop (fileOffset content i)) k := by
  fun_induction fileOffset content i with
  | case1 => simp
  | case2 r i ih =>
    rw [Nat.succ_add, fileOffset, ih, List.drop_succ_cons, List.drop_succ_cons]
    omega
  | case3 c r i h ih =>
    rw [Nat.succ_add, IsApart.fileOffset_cons h, ih, List.drop_succ_cons]
    omega
  | case4 i => simp

/-- A stretch of the text is what the stretch of the file between the same two places becomes. -/
theorem unifyLineEnds_slice (content : List Char) (i j : Nat) :
    unifyLineEnds (Text.slice (fileOffset content i) (fileOffset content j) content) =
      Text.slice i j (unifyLineEnds content) := by
  rw [Text.slice_natCast, Text.slice_natCast]
  rcases Nat.le_total i j with hle | hle
  · obtain ⟨k, rfl⟩ := Nat.exists_eq_add_of_le hle
    rw [fileOffset_add, ← List.take_drop, ← List.take_drop, unifyLineEnds_take, unifyLineEnds_drop]
  · obtain ⟨k, rfl⟩ := Nat.exists_eq_add_of_le hle
    rw [fileOffset_add, List.drop_eq_nil_of_le, List.drop_eq_nil_of_le]
    · rfl
    · exact Nat.le_trans (List.length_take_le ..) hle
    · exact Nat.le_trans (List.length_take_le ..) (Nat.le_add_right ..)

/-- Without a pair in front of its end, a stretch of the text is at the same places in the file. -/
theorem unifyLineEnds_slice_of_no_pairs {content : List Char} {j : Nat}
    (h : lineEndPairs (content.take (fileOffset content j)) = 0) (i : Nat) :
    unifyLineEnds (Text.slice i j content) = Text.slice i j (unifyLineEnds content) := by
  have hstop : fileOffset content j = j := by
    rw [fileOffset_eq, h, Nat.add_zero]
  rcases Nat.le_total i j with hle | hle
  · obtain ⟨k, rfl⟩ := Nat.exists_eq_add_of_le hle
    have hstart : fileOffset content i = i := by
      have hadd := fileOffset_add content i k
      have hi := fileOffset_eq content i
      have hk := fileOffset_eq (content.drop (fileOffset content i)) k
      omega
    have hslice := unifyLineEnds_slice content i (i + k)
    rwa [hstart, hstop] at hslice
  · rw [Text.slice_natCast, Text.slice_natCast, List.drop_eq_nil_of_le, List.drop_eq_nil_of_le]
    · rfl
    · exact Nat.le_trans (List.length_take_le ..) hle
    · exact Nat.le_trans (List.length_take_le ..) hle

end Flowchart.Batch
