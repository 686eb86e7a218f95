import Flowchart.Proofs.Mermaid.LabelCut

/-! The form of labels. Whatever text a label is made from, it is a short printable line without the
characters that mean something in a flowchart, and clamping it again changes nothing. -/
namespace Flowchart.Mermaid

/-- Printable and not the space. -/
def isVisible (c : Char) : Bool :=
  0x21 ≤ c.toNat && c.toNat ≤ 0x7E

/-- The characters that labels write as codes, apart from the `#` of the codes. -/
def marks : List Char :=
  ['&', '(', ')', '[', ']', '\x7b', '\x7d', '\x22', '|', '<', '>']

/-- A label that is not left to the fallback. -/
structure IsLabel (l : List Char) : Prop where
  ne_nil : l ≠ []
  length_le : l.length ≤ labelLimit
  printable : ∀ c ∈ l, 0x20 ≤ c.toNat ∧ c.toNat ≤ 0x7E
  no_mark : ∀ c ∈ l, c ∉ marks
  no_space_at_start : l.head? ≠ some ' '
  no_space_at_end : l.getLast? ≠ some ' '
  no_two_spaces : ¬ [' ', ' '] <:+: l
  clamp_eq : clamp l = l

theorem length_cutLabel_le (s : List Char) : (cutLabel s).length ≤ labelLimit := by
  rw [cutLabel]
  split_ifs with h
  · have hend (t : List Char) : (Text.trimEnd t).length ≤ t.length :=
      List.IsPrefix.length_le (Text.trimEnd_isPrefix t)
    have hdrop (t : List Char) : (dropBrokenCode t).length ≤ t.length :=
      List.IsPrefix.length_le (dropBrokenCode_isPrefix t)
    have htake : (s.take (labelLimit - 3)).length ≤ labelLimit - 3 := List.length_take_le ..
    have hdots : Text.ellipsis.length = 3 := rfl
    have hlimit : 3 ≤ labelLimit := by decide
    rw [List.length_append, hdots]
    have hleft := (hend _).trans ((hdrop _).trans ((hend _).trans htake))
    omega
  · omega

/-- The points of the ellipsis follow a visible character, or nothing. -/
theorem isSpaced_cutLabel {s : List Char} (h : Text.IsSpaced s) : Text.IsSpaced (cutLabel s) := by
  rw [cutLabel]
  split_ifs
  · have hpre : Text.trimEnd (dropBrokenCode (Text.trimEnd (s.take (labelLimit - 3)))) <+: s :=
      (Text.trimEnd_isPrefix _).trans ((dropBrokenCode_isPrefix _).trans
        ((Text.trimEnd_isPrefix _).trans (List.take_prefix _ s)))
    have hleft := Text.IsSpaced.of_isPrefix h.head_visible h.single hpre
      (Text.last_visible_trimEnd _)
    have hdots : Text.ellipsis.all fun c => !Text.isBlank c := by decide
    exact hleft.append_visible (by simpa using hdots)
  · exact h

theorem isBlank_of_plain_of_not_visible {c : Char} (hp : isPlain c) (hv : isVisible c = false) :
    Text.isBlank c := by
  simp only [isPlain, Bool.or_eq_true, Bool.and_eq_true, decide_eq_true_eq] at hp
  rcases hp with ((hp | rfl) | rfl) | rfl
  · simp only [isVisible, Bool.and_eq_false_iff, decide_eq_false_iff_not] at hv
    simp [Text.isBlank]
    omega
  · decide
  · decide
  · decide

theorem isPlain_of_isVisible {c : Char} (h : isVisible c) : isPlain c := by
  simp only [isVisible, Bool.and_eq_true, decide_eq_true_eq] at h
  simp [isPlain]
  omega

theorem not_isBlank_of_isVisible {c : Char} (h : isVisible c) : Text.isBlank c = false := by
  simp only [isVisible, Bool.and_eq_true, decide_eq_true_eq] at h
  simp [Text.isBlank]
  omega

/-- The line of a label is empty just when nothing in it is visible. -/
theorem lineOf_eq_nil_iff {s : String} :
    lineOf s = [] ↔ ∀ c ∈ s.toList, isVisible c = false := by
  rw [lineOf, Text.singleLine_eq_nil_iff]
  constructor
  · intro h c hc
    by_contra hv
    have hv := Bool.not_eq_false _ ▸ hv
    have hb := h c (List.mem_filter.mpr ⟨hc, isPlain_of_isVisible hv⟩)
    rw [not_isBlank_of_isVisible hv] at hb
    cases hb
  · intro h c hc
    obtain ⟨hc, hp⟩ := List.mem_filter.mp hc
    exact isBlank_of_plain_of_not_visible hp (h c hc)

theorem isLabel_cutLabel {line : List Char} (hne : line ≠ []) (h : Text.IsSpaced line)
    (hp : ∀ c ∈ line, Text.isPrintable c) : IsLabel (cutLabel (escape line)) := by
  have hsafe : ∀ c ∈ cutLabel (escape line), isSafe c := by
    intro c hc
    rcases mem_of_mem_cutLabel hc with hc | rfl
    · exact isSafe_escape hp hc
    · decide
  have hprintable : ∀ c ∈ cutLabel (escape line), Text.isPrintable c :=
    fun c hc => isPrintable_of_isSafe (hsafe c hc)
  have hspaced := isSpaced_cutLabel (isSpaced_escape h)
  have hblank : Text.isBlank ' ' := by decide
  have hshort := length_cutLabel_le (escape line)
  refine ⟨?_, hshort, fun c hc => ?_, fun c hc hmark => ?_, fun hc => ?_, fun hc => ?_,
    hspaced.no_two_spaces, ?_⟩
  · rwa [Ne, cutLabel_eq_nil_iff, escape_eq_nil_iff]
  · have hc := hprintable c hc
    simpa [Text.isPrintable] using hc
  · have hmarks : marks.all fun d => !isSafe d := by decide
    have hunmarked : isSafe c = false := by simpa using List.all_eq_true.mp hmarks c hmark
    exact ne_of_isSafe (hsafe c hc) hunmarked rfl
  · rw [hspaced.head_visible ' ' hc] at hblank
    cases hblank
  · rw [hspaced.last_visible ' ' hc] at hblank
    cases hblank
  · rw [clamp_eq_cutLabel hspaced hprintable, cutLabel, if_neg (by omega)]

/-- A label of a text without visible characters is the fallback. Any other is a line of 1 to 180
printable characters, single spaces between them, none of which means something in a flowchart, and
clamping leaves it as it is. -/
theorem label_form (s fallback : String) :
    ((∀ c ∈ s.toList, isVisible c = false) → label s fallback = fallback) ∧
      ((∃ c ∈ s.toList, isVisible c = true) → IsLabel (label s fallback).toList) := by
  rw [label_eq]
  constructor
  · intro h
    rw [if_pos (lineOf_eq_nil_iff.mpr h)]
  · rintro ⟨c, hc, hv⟩
    have hne : lineOf s ≠ [] := by
      intro hnil
      rw [lineOf_eq_nil_iff.mp hnil c hc] at hv
      cases hv
    rw [if_neg hne, String.toList_ofList]
    exact isLabel_cutLabel hne (Text.isSpaced_singleLine _) fun _ => isPrintable_singleLine

end Flowchart.Mermaid
