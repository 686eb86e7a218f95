import Flowchart.Flow.Node
import Flowchart.Mermaid.Label
import Flowchart.Proofs.Text.Lines

/-! Labels are printable and free of the characters that mean something in a flowchart. -/
namespace Flowchart.Mermaid

/-- Printable characters without a code of their own, and the `#` that codes begin with. -/
def isSafe (c : Char) : Bool :=
  Text.isPrintable c && ((code c).isNone || c = '#')

theorem isSafe_of_code_eq_none {c : Char} (hp : Text.isPrintable c) (hc : code c = none) :
    isSafe c := by
  simp [isSafe, hp, hc]

theorem isPrintable_of_isSafe {c : Char} (h : isSafe c) : Text.isPrintable c :=
  (Bool.and_eq_true_iff.mp h).1

theorem ne_of_isSafe {c d : Char} (hc : isSafe c) (hd : isSafe d = false) : c ≠ d := by
  rintro rfl
  rw [hc] at hd
  cases hd

private theorem isPrintable_of_isPlain {c : Char} (hp : isPlain c) (hb : Text.isBlank c = false) :
    Text.isPrintable c := by
  simp only [isPlain, Bool.or_eq_true, decide_eq_true_eq] at hp
  rcases hp with ((hp | rfl) | rfl) | rfl
  · exact hp
  · exact absurd hb (by decide)
  · exact absurd hb (by decide)
  · exact absurd hb (by decide)

theorem isPrintable_singleLine {s : List Char} {c : Char} (h : c ∈ Text.singleLine (plain s)) :
    Text.isPrintable c := by
  rcases Text.mem_of_mem_singleLine h with rfl | ⟨hc, hb⟩
  · rfl
  · exact isPrintable_of_isPlain (List.mem_filter.mp hc).2 hb

/-- Codes consist of `#`, digits and `;`. -/
theorem isSafe_escapeChar {c d : Char} (hp : Text.isPrintable c) (hd : d ∈ escapeChar c) :
    isSafe d := by
  have hcode : ∀ s, code c = some s → s.toList.all isSafe := by
    intro s hs
    unfold code at hs
    split at hs <;> cases hs <;> decide
  cases hc : code c with
  | none =>
    rw [escapeChar, hc] at hd
    obtain rfl := List.mem_singleton.mp hd
    exact isSafe_of_code_eq_none hp hc
  | some s =>
    rw [escapeChar, hc] at hd
    exact List.all_eq_true.mp (hcode s hc) d hd

theorem isSafe_escape {s : List Char} {d : Char} (h : ∀ c ∈ s, Text.isPrintable c)
    (hd : d ∈ escape s) : isSafe d := by
  obtain ⟨c, hc, hd⟩ := List.mem_flatMap.mp hd
  exact isSafe_escapeChar (h c hc) hd

theorem dropBrokenCode_isPrefix (s : List Char) : dropBrokenCode s <+: s := by
  simp only [dropBrokenCode]
  split
  · rename_i r hr
    split_ifs
    · have hsuffix := List.dropWhile_suffix (l := s.reverse) Char.isDigit
      rw [hr] at hsuffix
      rw [← List.reverse_suffix, List.reverse_reverse]
      exact (List.suffix_cons '#' r).trans hsuffix
    · exact List.prefix_rfl
  · exact List.prefix_rfl

/-- A cut adds nothing to a label but the points of the ellipsis. -/
theorem mem_of_mem_cutLabel {s : List Char} {c : Char} (h : c ∈ cutLabel s) : c ∈ s ∨ c = '.' := by
  unfold cutLabel at h
  split_ifs at h
  · rcases List.mem_append.mp h with h | h
    · have h := (dropBrokenCode_isPrefix _).subset (Text.mem_of_mem_trimEnd h)
      exact .inl (List.mem_of_mem_take (Text.mem_of_mem_trimEnd h))
    · exact .inr (by simpa [Text.ellipsis] using h)
  · exact .inl h

theorem isSafe_clamp {s : List Char} {c : Char} (h : ∀ d ∈ s, isSafe d) (hc : c ∈ clamp s) :
    isSafe c := by
  rcases mem_of_mem_cutLabel hc with hc | rfl
  · rcases Text.mem_of_mem_singleLine hc with rfl | ⟨hc, -⟩
    · decide
    · exact h c (List.mem_filter.mp hc).1
  · decide

/-- Whatever the text of a label is, the label is safe. -/
theorem isSafe_label {s fallback : String} (h : ∀ c ∈ fallback.toList, isSafe c) :
    ∀ c ∈ (label s fallback).toList, isSafe c := by
  intro c hc
  simp only [label] at hc
  split_ifs at hc
  · exact h c hc
  · rw [String.toList_ofList] at hc
    exact isSafe_clamp (fun d hd => isSafe_escape (fun e he => isPrintable_singleLine he) hd) hc

theorem isSafe_kindName (k : NodeKind) : ∀ c ∈ k.name.toList, isSafe c := by
  apply List.all_eq_true.mp
  cases k <;> decide

end Flowchart.Mermaid
