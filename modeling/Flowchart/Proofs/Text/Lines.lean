import Flowchart.Text.Blank
import Flowchart.Text.Lines
import Mathlib.Data.List.Basic

/-! Printable characters, texts on one line, and the lines of texts that were joined. -/
namespace Flowchart.Text

/-- Visible ASCII characters and the space. -/
def isPrintable (c : Char) : Bool :=
  0x20 ≤ c.toNat && c.toNat ≤ 0x7E

theorem not_isLineBreak_of_isPrintable {c : Char} (h : isPrintable c) : isLineBreak c = false := by
  simp only [isPrintable, Bool.and_eq_true, decide_eq_true_eq] at h
  simp [isLineBreak]
  omega

theorem mem_of_mem_trim {s : List Char} {c : Char} (h : c ∈ trim s) : c ∈ s := by
  have h := (List.dropWhile_suffix _).subset (List.mem_reverse.mp h)
  exact (List.dropWhile_suffix _).subset (List.mem_reverse.mp h)

theorem mem_of_mem_trimEnd {s : List Char} {c : Char} (h : c ∈ trimEnd s) : c ∈ s :=
  List.mem_reverse.mp ((List.dropWhile_suffix _).subset (List.mem_reverse.mp h))

/-- Collapsing leaves the characters that are not blank, and adds spaces. -/
theorem mem_of_mem_collapseFrom {s : List Char} {c : Char} {inRun : Bool}
    (h : c ∈ collapseFrom inRun s) : c = ' ' ∨ c ∈ s ∧ isBlank c = false := by
  induction s generalizing inRun with
  | nil => cases h
  | cons d s ih =>
    have htail {b : Bool} (h : c ∈ collapseFrom b s) : c = ' ' ∨ c ∈ d :: s ∧ isBlank c = false :=
      (ih h).imp_right (And.imp_left (List.mem_cons_of_mem d))
    unfold collapseFrom at h
    split at h
    · split at h
      · exact htail h
      · rcases List.mem_cons.mp h with rfl | h
        · exact .inl rfl
        · exact htail h
    · rename_i hd
      rcases List.mem_cons.mp h with rfl | h
      · exact .inr ⟨List.mem_cons_self .., by simpa using hd⟩
      · exact htail h

theorem mem_of_mem_singleLine {s : List Char} {c : Char} (h : c ∈ singleLine s) :
    c = ' ' ∨ c ∈ s ∧ isBlank c = false :=
  mem_of_mem_collapseFrom (mem_of_mem_trim h)

theorem dropWhile_eq_self {p : Char → Bool} {s : List Char} (h : ∀ c ∈ s.head?, p c = false) :
    s.dropWhile p = s := by
  cases s with
  | nil => rfl
  | cons c s => rw [List.dropWhile_cons_of_neg (by simp [h c rfl])]

/-- A text without blanks at its ends loses only the line feed after it. -/
theorem trim_append_lineFeed {s : List Char} (hne : s ≠ [])
    (hhead : ∀ c ∈ s.head?, isBlank c = false) (hlast : ∀ c ∈ s.getLast?, isBlank c = false) :
    trim (s ++ ['\n']) = s := by
  have hstart : trimStart (s ++ ['\n']) = s ++ ['\n'] := by
    apply dropWhile_eq_self
    obtain ⟨c, s, rfl⟩ := List.exists_cons_of_ne_nil hne
    exact hhead
  have hend : s.reverse.dropWhile isBlank = s.reverse := by
    apply dropWhile_eq_self
    rwa [List.head?_reverse]
  have hlf : isBlank '\n' = true := by decide
  rw [trim, hstart, trimEnd, List.reverse_append, List.reverse_singleton, List.singleton_append,
    List.dropWhile_cons_of_pos hlf, hend, List.reverse_reverse]

private theorem lines_cons {c : Char} (h : isLineBreak c = false) (r : List Char) :
    lines (c :: r) = match lines r with
      | [] => [[c]]
      | l :: ls => (c :: l) :: ls := by
  rw [lines.eq_3, h]
  · rfl
  · rintro _ rfl
    exact absurd h (by decide)

theorem lines_append_lineFeed {l : List Char} (h : ∀ c ∈ l, isLineBreak c = false)
    (r : List Char) : lines (l ++ '\n' :: r) = l :: lines r := by
  induction l with
  | nil => rfl
  | cons c l ih =>
    rw [List.cons_append, lines_cons (h c (List.mem_cons_self ..)),
      ih fun d hd => h d (List.mem_cons_of_mem c hd)]

/-- Texts that each end at a line feed are read again, be they blank or not. -/
theorem lines_joined_lineFeeds {ls : List (List Char)}
    (h : ∀ l ∈ ls, ∀ c ∈ l, isLineBreak c = false) : lines (ls.flatMap (· ++ ['\n'])) = ls := by
  induction ls with
  | nil => rfl
  | cons l ls ih =>
    rw [List.flatMap_cons, List.append_assoc, List.singleton_append,
      lines_append_lineFeed (h l (List.mem_cons_self ..)),
      ih fun l' hl => h l' (List.mem_cons_of_mem l hl)]

/-- A line that can be joined with others and read again. -/
structure IsLine (l : List Char) : Prop where
  no_break : ∀ c ∈ l, isLineBreak c = false
  ne_nil : l ≠ []
  head_visible : ∀ c ∈ l.head?, isBlank c = false
  last_visible : ∀ c ∈ l.getLast?, isBlank c = false

theorem IsLine.lines_eq {l : List Char} (h : IsLine l) : lines l = [l] := by
  have hall := h.no_break
  cases l with
  | nil => exact absurd rfl h.ne_nil
  | cons c l =>
    clear h
    induction l generalizing c with
    | nil => rw [lines_cons (hall c (List.mem_cons_self ..)), lines]
    | cons d l ih =>
      rw [lines_cons (hall c (List.mem_cons_self ..)),
        ih d fun e he => hall e (List.mem_cons_of_mem c he)]

theorem lines_joined {ls : List (List Char)} {last : List Char} (h : ∀ l ∈ ls, IsLine l)
    (hlast : IsLine last) : lines (ls.flatMap (· ++ ['\n']) ++ last) = ls ++ [last] := by
  induction ls with
  | nil => exact hlast.lines_eq
  | cons l ls ih =>
    rw [List.flatMap_cons, List.append_assoc, List.append_assoc, List.singleton_append,
      lines_append_lineFeed (h l (List.mem_cons_self ..)).no_break,
      ih fun l' hl => h l' (List.mem_cons_of_mem l hl), List.cons_append]

/-- The lines of joined lines are these lines. -/
theorem lines_trim_joined {ls : List (List Char)} (h : ∀ l ∈ ls, IsLine l) :
    lines (trim (ls.flatMap (· ++ ['\n']))) = ls := by
  rcases List.eq_nil_or_concat' ls with rfl | ⟨init, last, rfl⟩
  · rfl
  · have hinit : ∀ l ∈ init, IsLine l := fun l hl => h l (by simp [hl])
    have hlast : IsLine last := h last (by simp)
    have htext : (init ++ [last]).flatMap (· ++ ['\n']) =
        init.flatMap (· ++ ['\n']) ++ last ++ ['\n'] := by
      simp [List.flatMap_append]
    rw [htext, trim_append_lineFeed, lines_joined hinit hlast]
    · simp [hlast.ne_nil]
    · cases init with
      | nil => exact hlast.head_visible
      | cons l init =>
        have hl := hinit l (List.mem_cons_self ..)
        obtain ⟨c, l, rfl⟩ := List.exists_cons_of_ne_nil hl.ne_nil
        exact hl.head_visible
    · rw [List.getLast?_append_of_ne_nil _ hlast.ne_nil]
      exact hlast.last_visible

end Flowchart.Text
