import Flowchart.Mermaid.Label
import Flowchart.Proofs.Text.SingleLine

/-! Escaped texts. Each character is written as itself or as a complete code, so that a cut leaves
the escaped form of a part of the text and at most the beginning of one code. -/
namespace Flowchart.Mermaid

/-- What follows the `#` of a complete code. -/
def EndsCode (s : List Char) : Prop :=
  ∃ digits rest, digits ≠ [] ∧ (∀ d ∈ digits, d.isDigit) ∧ s = digits ++ ';' :: rest

/-- Every `#` begins a complete code. -/
def CodesComplete (s : List Char) : Prop :=
  ∀ before after, s = before ++ '#' :: after → EndsCode after

/-- A `#` has a code too, so that what is written as itself never looks like the start of a code. -/
theorem escapeChar_of_no_code {c : Char} (h : code c = none) : escapeChar c = [c] ∧ c ≠ '#' := by
  refine ⟨by rw [escapeChar, h, Option.elim_none], ?_⟩
  rintro rfl
  cases h

/-- A code is the number of its character in decimal digits. -/
theorem escapeChar_of_code {c : Char} {s : String} (h : code c = some s) :
    escapeChar c = '#' :: (Nat.toDigits 10 c.toNat ++ [';']) := by
  rw [escapeChar, h, Option.elim_some]
  unfold code at h
  split at h <;> cases h <;> decide

/-- What a character is written as: itself, or a code of at most three digits. -/
theorem escapeChar_cases (c : Char) :
    (escapeChar c = [c] ∧ c ≠ '#') ∨
      ∃ digits, escapeChar c = '#' :: (digits ++ [';']) ∧ digits ≠ [] ∧ digits.length ≤ 3 ∧
        (∀ d ∈ digits, d.isDigit) ∧ Text.isBlank c = false := by
  have hcode : ∀ s, code c = some s → c.toNat < 10 ^ 3 ∧ Text.isBlank c = false := by
    intro s hs
    unfold code at hs
    split at hs <;> cases hs <;> decide
  cases hc : code c with
  | none => exact .inl (escapeChar_of_no_code hc)
  | some s =>
    obtain ⟨hlt, hb⟩ := hcode s hc
    have hlen := (Nat.length_toDigits_le_iff (by decide) (by decide)).mpr hlt
    refine .inr ⟨_, escapeChar_of_code hc, Nat.toDigits_ne_nil, hlen, fun d hd => ?_, hb⟩
    exact Nat.isDigit_of_mem_toDigits (by decide) (by decide) hd

theorem isBlank_of_isDigit {d : Char} (h : d.isDigit) : Text.isBlank d = false := by
  simp only [Char.isDigit, Bool.and_eq_true, decide_eq_true_eq] at h
  have lower : 0x30 ≤ d.toNat := h.1
  have upper : d.toNat ≤ 0x39 := h.2
  simp [Text.isBlank]
  omega

theorem ne_hash_of_isDigit {d : Char} (h : d.isDigit) : d ≠ '#' := by
  rintro rfl
  exact absurd h (by decide)

theorem escape_cons (c : Char) (s : List Char) : escape (c :: s) = escapeChar c ++ escape s :=
  List.flatMap_cons

theorem escape_concat (s : List Char) (c : Char) :
    escape (s ++ [c]) = escape s ++ escapeChar c := by
  rw [escape, List.flatMap_append, List.flatMap_singleton]
  rfl

theorem escapeChar_ne_nil (c : Char) : escapeChar c ≠ [] := by
  rcases escapeChar_cases c with ⟨he, -⟩ | ⟨digits, he, -⟩ <;> simp [he]

theorem isBlank_of_mem_escapeChar (c : Char) :
    ∀ d ∈ escapeChar c, Text.isBlank d = Text.isBlank c := by
  intro d hd
  rcases escapeChar_cases c with ⟨he, -⟩ | ⟨digits, he, -, -, hdigits, hb⟩
  · rw [he] at hd
    rw [List.mem_singleton.mp hd]
  · rw [he] at hd
    rw [hb]
    rcases List.mem_cons.mp hd with rfl | hd
    · decide
    · rcases List.mem_append.mp hd with hd | hd
      · exact isBlank_of_isDigit (hdigits d hd)
      · rw [List.mem_singleton.mp hd]
        decide

theorem isSpaced_escape {s : List Char} (h : Text.IsSpaced s) : Text.IsSpaced (escape s) := by
  refine h.flatMap escapeChar_ne_nil isBlank_of_mem_escapeChar fun c => ?_
  rcases escapeChar_cases c with ⟨he, -⟩ | ⟨-, -, -, -, -, hb⟩
  · rw [he]
    exact .singleton c
  · refine List.Pairwise.isChain (List.pairwise_of_forall_mem_list fun _ _ e he _ => ?_)
    rw [isBlank_of_mem_escapeChar c e he, hb]

theorem escape_eq_nil_iff {s : List Char} : escape s = [] ↔ s = [] := by
  rw [escape, List.flatMap_eq_nil_iff, List.eq_nil_iff_forall_not_mem]
  exact forall₂_congr fun c _ => iff_false_intro (escapeChar_ne_nil c)

/-! The last character of an escaped text. -/

/-- It is that of the text, and no `#`, or the semicolon of a code. -/
theorem escape_concat_cases (s : List Char) (c : Char) :
    (escape (s ++ [c]) = escape s ++ [c] ∧ c ≠ '#') ∨
      ∃ init, escape (s ++ [c]) = init ++ [';'] ∧ Text.isBlank c = false := by
  rw [escape_concat]
  rcases escapeChar_cases c with ⟨hc, hne⟩ | ⟨digits, hc, -, -, -, hb⟩
  · exact .inl ⟨by rw [hc], hne⟩
  · refine .inr ⟨escape s ++ '#' :: digits, ?_, hb⟩
    rw [hc, List.append_assoc, List.cons_append]

theorem getLast?_escape_ne_hash (s : List Char) : (escape s).getLast? ≠ some '#' := by
  rcases List.eq_nil_or_concat' s with rfl | ⟨s, c, rfl⟩
  · nofun
  · rcases escape_concat_cases s c with ⟨he, hne⟩ | ⟨init, he, -⟩
    · rw [he, List.getLast?_concat]
      exact fun h => hne (Option.some.inj h)
    · rw [he, List.getLast?_concat]
      decide

/-- Spaces are written as they are. -/
theorem trimEnd_escape (s : List Char) : Text.trimEnd (escape s) = escape (Text.trimEnd s) := by
  induction s using List.reverseRecOn with
  | nil => rfl
  | append_singleton s c ih =>
    by_cases hb : Text.isBlank c
    · have hc : escape (s ++ [c]) = escape s ++ [c] := by
        rcases escape_concat_cases s c with ⟨he, -⟩ | ⟨-, -, hv⟩
        · exact he
        · rw [hb] at hv
          cases hv
      have htrim (t : List Char) : Text.trimEnd (t ++ [c]) = Text.trimEnd t :=
        List.rdropWhile_concat_pos _ _ _ hb
      rw [hc, htrim, htrim, ih]
    · have hlast : ∀ d ∈ (escape (s ++ [c])).getLast?, Text.isBlank d = false := by
        intro d hd
        rw [escape_concat, List.getLast?_append_of_ne_nil _ (escapeChar_ne_nil c)] at hd
        rw [isBlank_of_mem_escapeChar c d (List.mem_of_mem_getLast? hd)]
        simpa using hb
      have hself : Text.trimEnd (s ++ [c]) = s ++ [c] := List.rdropWhile_concat_neg _ _ _ hb
      rw [Text.trimEnd_eq_self hlast, hself]

/-! The longest part of a text whose escaped form fits into a number of characters. -/

def fitting : Nat → List Char → List Char
  | _, [] => []
  | n, c :: s =>
    if (escapeChar c).length ≤ n then c :: fitting (n - (escapeChar c).length) s else []

/-- `p` is the longest part at the start of `s` whose escaped form has at most `n` characters. -/
structure IsFitting (n : Nat) (s p : List Char) : Prop where
  isPrefix : p <+: s
  fits : (escape p).length ≤ n
  longest : ∀ q, q <+: s → (escape q).length ≤ n → q <+: p

theorem isFitting_fitting (n : Nat) (s : List Char) : IsFitting n s (fitting n s) := by
  induction s generalizing n with
  | nil => exact ⟨List.prefix_rfl, Nat.zero_le _, fun q hq _ => hq⟩
  | cons c s ih =>
    rw [fitting]
    split_ifs with hc
    · have htail := ih (n - (escapeChar c).length)
      refine ⟨List.cons_prefix_cons.mpr ⟨rfl, htail.isPrefix⟩, ?_, fun q hq hfits => ?_⟩
      · have hle := htail.fits
        rw [escape_cons, List.length_append]
        omega
      · cases q with
        | nil => exact List.nil_prefix
        | cons d q =>
          obtain ⟨rfl, hrest⟩ := List.cons_prefix_cons.mp hq
          rw [escape_cons, List.length_append] at hfits
          exact List.cons_prefix_cons.mpr ⟨rfl, htail.longest q hrest (by omega)⟩
    · refine ⟨List.nil_prefix, Nat.zero_le _, fun q hq hfits => ?_⟩
      cases q with
      | nil => exact List.nil_prefix
      | cons d q =>
        obtain ⟨rfl, -⟩ := List.cons_prefix_cons.mp hq
        rw [escape_cons, List.length_append] at hfits
        omega

/-- A cut falls behind a character or inside a code. -/
theorem take_escape (n : Nat) (s : List Char) :
    (escape s).take n = escape (fitting n s) ∨
      ∃ digits, (escape s).take n = escape (fitting n s) ++ '#' :: digits ∧ digits.length ≤ 3 ∧
        ∀ d ∈ digits, d.isDigit := by
  induction s generalizing n with
  | nil => exact .inl List.take_nil
  | cons c s ih =>
    rw [escape_cons, List.take_append, fitting]
    split_ifs with hc
    · rw [List.take_of_length_le hc, escape_cons]
      rcases ih (n - (escapeChar c).length) with hcut | ⟨digits, hcut, hrest⟩
      · exact .inl (by rw [hcut])
      · exact .inr ⟨digits, by rw [hcut, List.append_assoc], hrest⟩
    · rw [Nat.sub_eq_zero_of_le (by omega), List.take_zero, List.append_nil]
      cases n with
      | zero => exact .inl rfl
      | succ n =>
        rcases escapeChar_cases c with ⟨he, -⟩ | ⟨digits, he, -, hlen, hdigits, -⟩
        · rw [he] at hc
          exact absurd (Nat.le_add_left 1 n) hc
        · -- The cut leaves the `;` of the code out, as it does not hold the whole code.
          rw [he, List.length_cons, List.length_append, List.length_singleton] at hc
          refine .inr ⟨digits.take n, ?_, ?_, fun d hd => hdigits d (List.mem_of_mem_take hd)⟩
          · rw [he, List.take_succ_cons, List.take_append_of_le_length (by omega)]
            rfl
          · rw [List.length_take]
            omega

/-! Codes that are complete. -/

theorem EndsCode.append {s : List Char} (h : EndsCode s) (t : List Char) : EndsCode (s ++ t) := by
  obtain ⟨digits, rest, hne, hdigits, rfl⟩ := h
  exact ⟨digits, rest ++ t, hne, hdigits, by rw [List.append_assoc, List.cons_append]⟩

/-- A `#` behind complete codes begins a code or stands in what follows them. -/
theorem CodesComplete.endsCode_or {s t before after : List Char} (h : CodesComplete s)
    (hsplit : s ++ t = before ++ '#' :: after) :
    EndsCode after ∨ ∃ between, t = between ++ '#' :: after := by
  rcases List.append_eq_append_iff.mp hsplit with ⟨between, -, ht⟩ | ⟨rest, hs, hrest⟩
  · exact .inr ⟨between, ht⟩
  · cases rest with
    | nil => exact .inr ⟨[], hrest.symm⟩
    | cons c rest =>
      obtain ⟨rfl, rfl⟩ := List.cons.inj hrest
      exact .inl ((h before rest hs).append t)

theorem CodesComplete.append {s t : List Char} (h : CodesComplete s) (ht : CodesComplete t) :
    CodesComplete (s ++ t) := by
  intro before after hsplit
  rcases h.endsCode_or hsplit with hcode | ⟨between, hbetween⟩
  · exact hcode
  · exact ht between after hbetween

theorem codesComplete_of_not_mem {s : List Char} (h : '#' ∉ s) : CodesComplete s := by
  rintro before after rfl
  exact absurd (List.mem_append_right before List.mem_cons_self) h

theorem codesComplete_escapeChar (c : Char) : CodesComplete (escapeChar c) := by
  rcases escapeChar_cases c with ⟨he, hne⟩ | ⟨digits, he, hnil, -, hdigits, -⟩
  · rw [he]
    exact codesComplete_of_not_mem (by simpa using hne.symm)
  · have hrest : '#' ∉ digits ++ [';'] := by
      intro hmem
      rcases List.mem_append.mp hmem with hmem | hmem
      · exact ne_hash_of_isDigit (hdigits _ hmem) rfl
      · exact absurd hmem (by decide)
    rw [he]
    intro before after hsplit
    cases before with
    | nil => exact ⟨digits, [], hnil, hdigits, (List.cons.inj hsplit).2.symm⟩
    | cons d before =>
      rw [(List.cons.inj hsplit).2] at hrest
      exact absurd (List.mem_append_right before List.mem_cons_self) hrest

theorem codesComplete_escape (s : List Char) : CodesComplete (escape s) := by
  induction s with
  | nil => exact codesComplete_of_not_mem List.not_mem_nil
  | cons c s ih =>
    rw [escape_cons]
    exact (codesComplete_escapeChar c).append ih

end Flowchart.Mermaid
