import Flowchart.Proofs.Mermaid.Escape
import Flowchart.Proofs.Mermaid.Label

/-! Cutting a label. What is left is the escaped form of a part of the text, unless the cut falls
right behind the `#` of a code: then this `#` stays, and no code follows it. -/
namespace Flowchart.Mermaid

theorem dropBrokenCode_append {s digits : List Char} (h : ∀ d ∈ digits, d.isDigit) :
    dropBrokenCode (s ++ '#' :: digits) =
      if 1 ≤ digits.length ∧ digits.length ≤ 4 then s else s ++ '#' :: digits := by
  have hrev : (s ++ '#' :: digits).reverse = digits.reverse ++ '#' :: s.reverse := by simp
  have hdigits : ∀ d ∈ digits.reverse, d.isDigit := fun d hd => h d (List.mem_reverse.mp hd)
  have hhash : Char.isDigit '#' = false := by decide
  rw [dropBrokenCode, hrev, List.takeWhile_append_of_pos hdigits,
    List.dropWhile_append_of_pos hdigits,
    List.takeWhile_cons_of_neg (by simp [hhash]), List.dropWhile_cons_of_neg (by simp [hhash]),
    List.append_nil, List.length_reverse]
  simp only [List.reverse_reverse]

/-- A whole code ends with a semicolon, and is not taken for a broken one. -/
theorem dropBrokenCode_escape (s : List Char) : dropBrokenCode (escape s) = escape s := by
  have hhead : ∀ c ∈ ((escape s).reverse.dropWhile Char.isDigit).head?, c ≠ '#' := by
    induction s using List.reverseRecOn with
    | nil => nofun
    | append_singleton s c ih =>
      intro d hd
      rcases escape_concat_cases s c with ⟨he, hne⟩ | ⟨init, he, -⟩
      · rw [he, List.reverse_append, List.reverse_singleton, List.singleton_append] at hd
        by_cases hdigit : c.isDigit
        · rw [List.dropWhile_cons_of_pos hdigit] at hd
          exact ih d hd
        · rw [List.dropWhile_cons_of_neg hdigit] at hd
          exact Option.some.inj hd ▸ hne
      · rw [he, List.reverse_append, List.reverse_singleton, List.singleton_append,
          List.dropWhile_cons_of_neg (by decide)] at hd
        exact Option.some.inj hd ▸ by decide
  rw [dropBrokenCode]
  split
  · rename_i r hr
    rw [hr] at hhead
    exact absurd rfl (hhead '#' rfl)
  · rfl

theorem trimEnd_append_broken {s digits : List Char} (h : ∀ d ∈ digits, d.isDigit) :
    Text.trimEnd (s ++ '#' :: digits) = s ++ '#' :: digits := by
  apply Text.trimEnd_eq_self
  intro c hc
  rw [List.getLast?_append_of_ne_nil _ (List.cons_ne_nil '#' digits)] at hc
  rcases List.mem_cons.mp (List.mem_of_mem_getLast? hc) with rfl | hc
  · decide
  · exact isBlank_of_isDigit (h c hc)

/-- The text is cut, and right behind the `#` of a code. -/
def CutsBehindHash (s : List Char) : Prop :=
  labelLimit < (escape s).length ∧ (escape s)[labelLimit - 4]? = some '#'

instance (s : List Char) : Decidable (CutsBehindHash s) :=
  inferInstanceAs (Decidable (_ ∧ _))

/-- What a cut leaves of an escaped text. -/
theorem cutLabel_escape {s : List Char} (h : labelLimit < (escape s).length) :
    cutLabel (escape s) =
      (if CutsBehindHash s then escape (fitting (labelLimit - 3) s) ++ ['#']
        else Text.trimEnd (escape (fitting (labelLimit - 3) s))) ++ Text.ellipsis := by
  have hbehind : CutsBehindHash s ↔
      ((escape s).take (labelLimit - 3)).getLast? = some '#' := by
    rw [CutsBehindHash, and_iff_right h, List.getLast?_eq_getElem?, List.length_take,
      Nat.min_eq_left (by omega), List.getElem?_take_of_lt (by decide)]
    rfl
  rw [cutLabel, if_pos h]
  rcases take_escape (labelLimit - 3) s with hcut | ⟨digits, hcut, hlen, hdigits⟩
  · have hnot : ¬ CutsBehindHash s := by
      rw [hbehind, hcut]
      exact getLast?_escape_ne_hash _
    have htrim : Text.trimEnd (Text.trimEnd (escape (fitting (labelLimit - 3) s))) =
        Text.trimEnd (escape (fitting (labelLimit - 3) s)) := List.rdropWhile_idempotent ..
    rw [if_neg hnot, hcut, trimEnd_escape, dropBrokenCode_escape, ← trimEnd_escape, htrim]
  · rw [hcut, trimEnd_append_broken hdigits, dropBrokenCode_append hdigits]
    cases digits with
    | nil =>
      have hyes : CutsBehindHash s := by rw [hbehind, hcut, List.getLast?_concat]
      rw [if_pos hyes, if_neg (by simp), trimEnd_append_broken hdigits]
    | cons d digits =>
      have hnot : ¬ CutsBehindHash s := by
        rw [hbehind, hcut, List.getLast?_append_of_ne_nil _ (List.cons_ne_nil _ _),
          List.getLast?_cons_cons]
        intro hlast
        exact ne_hash_of_isDigit (hdigits '#' (List.mem_of_mem_getLast? hlast)) rfl
      rw [if_neg hnot, if_pos ⟨Nat.succ_pos _, Nat.le_succ_of_le hlen⟩]

/-! Labels of any text. -/

/-- A printable text on one line goes through clamping unchanged, until it is cut. -/
theorem clamp_eq_cutLabel {s : List Char} (h : Text.IsSpaced s) (hp : ∀ c ∈ s, Text.isPrintable c) :
    clamp s = cutLabel s := by
  have hplain : plain s = s := by
    refine List.filter_eq_self.mpr fun c hc => ?_
    have hc := hp c hc
    rw [Text.isPrintable] at hc
    rw [isPlain, hc]
    rfl
  rw [clamp, hplain,
    Text.singleLine_eq_self h fun c hc hb => Text.eq_space_of_isPrintable (hp c hc) hb]

theorem cutLabel_eq_nil_iff {s : List Char} : cutLabel s = [] ↔ s = [] := by
  rw [cutLabel]
  split_ifs with h
  · have hs : s ≠ [] := by
      rintro rfl
      exact absurd h (by decide)
    exact iff_of_false (List.append_ne_nil_of_right_ne_nil _ (by decide)) hs
  · rfl

/-- The text of a label on one line, not escaped yet. -/
def lineOf (s : String) : List Char :=
  Text.singleLine (plain s.toList)

theorem lineOf_ofList (s : List Char) : lineOf (.ofList s) = Text.singleLine (plain s) := by
  rw [lineOf, String.toList_ofList]

/-- A label is the escaped line, cut if it is long; an empty line leaves the label to the
fallback. -/
theorem label_eq (s fallback : String) :
    label s fallback =
      if lineOf s = [] then fallback else .ofList (cutLabel (escape (lineOf s))) := by
  have hclamp : clamp (escape (lineOf s)) = cutLabel (escape (lineOf s)) := by
    refine clamp_eq_cutLabel (isSpaced_escape (Text.isSpaced_singleLine _)) fun c hc => ?_
    exact isPrintable_of_isSafe (isSafe_escape (fun _ hd => isPrintable_singleLine hd) hc)
  have hempty : (cutLabel (escape (lineOf s))).isEmpty ↔ lineOf s = [] := by
    rw [List.isEmpty_iff, cutLabel_eq_nil_iff, escape_eq_nil_iff]
  rw [lineOf] at hclamp hempty ⊢
  simp only [label, hclamp, hempty]

/-- A label whose escaped line is too long ends with an ellipsis. In front of it stands the escaped
form of the longest part of the line that fits, without the blanks at its end; but the `#` of the
next code stays there when the cut falls right behind it. So every `#` of a label begins a complete
code, but for that one. -/
theorem label_cut (s fallback : String) :
    (labelLimit < (escape (lineOf s)).length → ∃ p, IsFitting (labelLimit - 3) (lineOf s) p ∧
      label s fallback = .ofList
        ((if CutsBehindHash (lineOf s) then escape p ++ ['#'] else Text.trimEnd (escape p)) ++
          Text.ellipsis)) ∧
    (lineOf s ≠ [] → ∀ before after, (label s fallback).toList = before ++ '#' :: after →
      EndsCode after ∨ CutsBehindHash (lineOf s) ∧ after = Text.ellipsis) := by
  constructor
  · intro h
    have hne : lineOf s ≠ [] := by
      intro hnil
      rw [hnil] at h
      exact absurd h (by decide)
    refine ⟨_, isFitting_fitting (labelLimit - 3) (lineOf s), ?_⟩
    rw [label_eq, if_neg hne, cutLabel_escape h]
  · intro hne before after hsplit
    have hdots : CodesComplete Text.ellipsis := codesComplete_of_not_mem (by decide)
    rw [label_eq, if_neg hne, String.toList_ofList] at hsplit
    by_cases h : labelLimit < (escape (lineOf s)).length
    · rw [cutLabel_escape h] at hsplit
      split_ifs at hsplit with hbehind
      · rw [List.append_assoc] at hsplit
        rcases (codesComplete_escape _).endsCode_or hsplit with hcode | ⟨between, hrest⟩
        · exact .inl hcode
        · cases between with
          | nil => exact .inr ⟨hbehind, (List.cons.inj hrest).2.symm⟩
          | cons c between => exact .inl (hdots between after (List.cons.inj hrest).2)
      · rw [trimEnd_escape] at hsplit
        exact .inl ((codesComplete_escape _).append hdots before after hsplit)
    · rw [cutLabel, if_neg h] at hsplit
      exact .inl (codesComplete_escape _ before after hsplit)

/-- A label that is cut inside a code. -/
def insideCode : String :=
  .ofList (List.replicate 174 'x' ++ ['(', ')'])

theorem label_cut_insideCode : labelLimit < (escape (lineOf insideCode)).length ∧
    lineOf insideCode ≠ [] ∧
    (∃ p, IsFitting (labelLimit - 3) (lineOf insideCode) p ∧
      label insideCode "step" = .ofList
        ((if CutsBehindHash (lineOf insideCode) then escape p ++ ['#']
          else Text.trimEnd (escape p)) ++ Text.ellipsis)) ∧
    ∀ before after, (label insideCode "step").toList = before ++ '#' :: after →
      EndsCode after ∨ CutsBehindHash (lineOf insideCode) ∧ after = Text.ellipsis := by
  have hline : lineOf insideCode = List.replicate 174 'x' ++ ['(', ')'] :=
    (lineOf_ofList _).trans (by decide +kernel)
  have hlong : labelLimit < (escape (lineOf insideCode)).length := by
    rw [hline]
    decide +kernel
  have hne : lineOf insideCode ≠ [] := by
    rw [hline]
    exact List.cons_ne_nil _ _
  exact ⟨hlong, hne, (label_cut insideCode "step").1 hlong, (label_cut insideCode "step").2 hne⟩

/-- A label of which each character is a code of four characters, so that the cut falls right behind
a `#`. -/
def parentheses : String :=
  .ofList (List.replicate 46 '(')

/-- The `#` stays, so that the label is not the escaped form of any part of the text. -/
theorem label_keeps_hash : labelLimit < (escape (lineOf parentheses)).length ∧
    (label parentheses "step").toList =
      escape (List.replicate 44 '(') ++ '#' :: Text.ellipsis ∧
    (¬ ∃ p, p <+: lineOf parentheses ∧
      (label parentheses "step").toList = Text.trimEnd (escape p) ++ Text.ellipsis) ∧
    ∃ before after, (label parentheses "step").toList = before ++ '#' :: after ∧
      ¬ EndsCode after := by
  have hline : lineOf parentheses = List.replicate 46 '(' :=
    (lineOf_ofList _).trans (by decide +kernel)
  have hne : lineOf parentheses ≠ [] := by
    rw [hline]
    exact List.cons_ne_nil _ _
  have hcut : cutLabel (escape (List.replicate 46 '(')) =
      escape (List.replicate 44 '(') ++ '#' :: Text.ellipsis := by decide +kernel
  have hlabel : (label parentheses "step").toList =
      escape (List.replicate 44 '(') ++ '#' :: Text.ellipsis := by
    rw [label_eq, if_neg hne, String.toList_ofList, hline, hcut]
  refine ⟨?_, hlabel, ?_, _, _, hlabel, ?_⟩
  · rw [hline]
    decide +kernel
  · rintro ⟨p, -, hp⟩
    rw [hlabel, List.append_cons, trimEnd_escape] at hp
    have hlast := getLast?_escape_ne_hash (Text.trimEnd p)
    rw [← List.append_cancel_right hp, List.getLast?_concat] at hlast
    exact hlast rfl
  · rintro ⟨digits, rest, hne, hdigits, hdots⟩
    cases digits with
    | nil => exact hne rfl
    | cons d digits =>
      have hd := hdigits d List.mem_cons_self
      rw [← (List.cons.inj hdots).1] at hd
      exact absurd hd (by decide)

end Flowchart.Mermaid
