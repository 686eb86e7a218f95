import Flowchart.Proofs.Mermaid.LabelCut

/-! Reading escaped texts. The code of a character spells out its number, so that a reader that puts
characters for numbers gives the text back, also where the text itself looks like a code. Texts with
the same escaped form are equal, and so are the lines of labels that are equal and not cut. -/
namespace Flowchart.Mermaid

/-- The text that an escaped text stands for; `number` is what a code has told so far when the
reader is inside one. -/
def unescapeFrom : (number : Option Nat) → List Char → List Char
  | _, [] => []
  | none, c :: s => if c = '#' then unescapeFrom (some 0) s else c :: unescapeFrom none s
  | some n, c :: s =>
    if c = ';' then .ofNat n :: unescapeFrom none s
    else unescapeFrom (some (10 * n + (c.toNat - '0'.toNat))) s

def unescape (s : List Char) : List Char :=
  unescapeFrom none s

theorem unescape_cons {c : Char} (h : c ≠ '#') (s : List Char) :
    unescape (c :: s) = c :: unescape s := by
  rw [unescape, unescapeFrom, if_neg h]
  rfl

theorem unescapeFrom_digits {digits : List Char} (h : ∀ d ∈ digits, d ≠ ';') (n : Nat)
    (r : List Char) : unescapeFrom (some n) (digits ++ ';' :: r) =
      .ofNat (Nat.ofDigitChars 10 digits n) :: unescape r := by
  induction digits generalizing n with
  | nil =>
    rw [List.nil_append, unescapeFrom, if_pos rfl, Nat.ofDigitChars_nil]
    rfl
  | cons d digits ih =>
    obtain ⟨hd, hrest⟩ := List.forall_mem_cons.mp h
    rw [List.cons_append, unescapeFrom, if_neg hd, ih hrest, Nat.ofDigitChars_cons]

theorem unescape_escapeChar_append (c : Char) (r : List Char) :
    unescape (escapeChar c ++ r) = c :: unescape r := by
  cases hc : code c with
  | none =>
    obtain ⟨he, hne⟩ := escapeChar_of_no_code hc
    rw [he, List.singleton_append, unescape_cons hne]
  | some s =>
    have hdigits : ∀ d ∈ Nat.toDigits 10 c.toNat, d ≠ ';' := by
      rintro d hd rfl
      exact absurd (Nat.isDigit_of_mem_toDigits (by decide) (by decide) hd) (by decide)
    rw [escapeChar_of_code hc, List.cons_append, List.append_assoc, List.singleton_append, unescape,
      unescapeFrom, if_pos rfl, unescapeFrom_digits hdigits, Nat.ofDigitChars_ten_toDigits,
      Char.ofNat_toNat]

/-- An escaped text is read back. -/
theorem unescape_escape (s : List Char) : unescape (escape s) = s := by
  induction s with
  | nil => rfl
  | cons c s ih => rw [escape_cons, unescape_escapeChar_append, ih]

theorem escape_injective : Function.Injective escape :=
  Function.LeftInverse.injective unescape_escape

/-- A parenthesis, and a text that looks like its code. -/
example : escape ['('] = "#40;".toList ∧ escape "#40;".toList = "#35;40;".toList := by decide

theorem label_of_short {s : String} (hne : lineOf s ≠ [])
    (hshort : (escape (lineOf s)).length ≤ labelLimit) (fallback : String) :
    label s fallback = .ofList (escape (lineOf s)) := by
  rw [label_eq, if_neg hne, cutLabel, if_neg (Nat.not_lt.mpr hshort)]

/-- No two texts have the same escaped form. Two labels that are neither cut nor left to a fallback
are the same just when they are made from the same line. -/
theorem label_injective :
    (∀ s t, escape s = escape t → s = t) ∧
      ∀ s t fallback fallback' : String, lineOf s ≠ [] → lineOf t ≠ [] →
        (escape (lineOf s)).length ≤ labelLimit → (escape (lineOf t)).length ≤ labelLimit →
        (label s fallback = label t fallback' ↔ lineOf s = lineOf t) := by
  refine ⟨fun s t h => escape_injective h, fun s t fallback fallback' hs ht hshort hshort' => ?_⟩
  rw [label_of_short hs hshort, label_of_short ht hshort', String.ofList_inj,
    escape_injective.eq_iff]

/-- A call on two lines. -/
def brokenCall : String :=
  .ofList "f\n(x)".toList

/-- A text that looks like the escaped form of the same call on one line. -/
def callInCodes : String :=
  .ofList "f #40;x#41;".toList

theorem label_injective_callInCodes :
    escape "f (x)".toList = callInCodes.toList ∧
      lineOf brokenCall ≠ [] ∧ lineOf callInCodes ≠ [] ∧
      (escape (lineOf brokenCall)).length ≤ labelLimit ∧
      (escape (lineOf callInCodes)).length ≤ labelLimit ∧
      lineOf brokenCall ≠ lineOf callInCodes ∧
      label brokenCall "step" ≠ label callInCodes "call" := by
  have hcall : lineOf brokenCall = "f (x)".toList := (lineOf_ofList _).trans (by decide +kernel)
  have hcodes : lineOf callInCodes = "f #40;x#41;".toList :=
    (lineOf_ofList _).trans (by decide +kernel)
  have hne : lineOf brokenCall ≠ [] := by rw [hcall]; decide
  have hne' : lineOf callInCodes ≠ [] := by rw [hcodes]; decide
  have hshort : (escape (lineOf brokenCall)).length ≤ labelLimit := by rw [hcall]; decide
  have hshort' : (escape (lineOf callInCodes)).length ≤ labelLimit := by rw [hcodes]; decide
  have hdiffer : lineOf brokenCall ≠ lineOf callInCodes := by rw [hcall, hcodes]; decide
  have hlabels := label_injective.2 brokenCall callInCodes "step" "call" hne hne' hshort hshort'
  exact ⟨by decide +kernel, hne, hne', hshort, hshort', hdiffer, mt hlabels.mp hdiffer⟩

end Flowchart.Mermaid
