import Flowchart.Proofs.Text.SingleLine
import Flowchart.Text.Excerpt

/-! Texts that are shortened to their first characters and clipped only then. Clipping marks what it
cuts off, but does not know of what was cut off before. -/
namespace Flowchart.Text

/-- Of the first characters not more than `limit` are left when they are trimmed, and something
visible stands behind them. -/
def LosesEnd (limit first : Nat) (s : List Char) : Prop :=
  (trim (s.take first)).length ≤ limit ∧ ∃ c ∈ s.drop first, isBlank c = false

instance (limit first : Nat) (s : List Char) : Decidable (LosesEnd limit first s) :=
  inferInstanceAs (Decidable (_ ∧ ∃ c ∈ s.drop first, isBlank c = false))

/-- A text is shown whole, or with a mark at the end. -/
def WholeOrMarked (shown s : List Char) : Prop :=
  shown = trim s ∨ ellipsis <:+ shown

instance (shown s : List Char) : Decidable (WholeOrMarked shown s) :=
  inferInstanceAs (Decidable (_ ∨ _))

def visible (s : List Char) : List Char :=
  s.filter (!isBlank ·)

variable {s r : List Char}

theorem visible_append (s r : List Char) : visible (s ++ r) = visible s ++ visible r :=
  List.filter_append ..

theorem visible_eq_nil_iff : visible s = [] ↔ ∀ c ∈ s, isBlank c = true := by
  simp [visible]

theorem visible_dropWhile (s : List Char) : visible (s.dropWhile isBlank) = visible s := by
  have hblank : visible (s.takeWhile isBlank) = [] :=
    visible_eq_nil_iff.mpr fun c hc => List.mem_takeWhile_imp hc
  conv_rhs => rw [← List.takeWhile_append_dropWhile (p := isBlank) (l := s)]
  rw [visible_append, hblank, List.nil_append]

theorem visible_reverse (s : List Char) : visible s.reverse = (visible s).reverse :=
  List.filter_reverse ..

/-- Trimming takes away nothing visible. -/
theorem visible_trim (s : List Char) : visible (trim s) = visible s := by
  rw [trim, trimEnd, visible_reverse, visible_dropWhile, visible_reverse, List.reverse_reverse,
    trimStart, visible_dropWhile]

theorem trimEnd_isPrefix_append (s r : List Char) : trimEnd s <+: trimEnd (s ++ r) := by
  induction r using List.reverseRecOn with
  | nil => simp
  | append_singleton r c ih =>
    have hstep : trimEnd (s ++ r ++ [c]) = if isBlank c then trimEnd (s ++ r) else s ++ r ++ [c] :=
      List.rdropWhile_concat ..
    rw [← List.append_assoc, hstep]
    split_ifs
    · exact ih
    · rw [List.append_assoc]
      exact (trimEnd_isPrefix s).trans (List.prefix_append ..)

theorem trimStart_append (h : trimStart s ≠ []) (r : List Char) :
    trimStart (s ++ r) = trimStart s ++ r := by
  have hne : ¬ (s.dropWhile isBlank).isEmpty := fun hs => h (List.isEmpty_iff.mp hs)
  rw [trimStart, List.dropWhile_append, if_neg hne]
  rfl

theorem trim_isPrefix_append (s r : List Char) : trim s <+: trim (s ++ r) := by
  by_cases h : trimStart s = []
  · rw [trim, h]
    exact List.nil_prefix
  · rw [trim, trim, trimStart_append h]
    exact trimEnd_isPrefix_append ..

theorem trim_append_blanks (s : List Char) (h : ∀ c ∈ r, isBlank c = true) :
    trim (s ++ r) = trim s := by
  have hend (s : List Char) : trimEnd (s ++ r) = trimEnd s := by
    rw [trimEnd, List.reverse_append,
      List.dropWhile_append_of_pos fun c hc => h c (List.mem_reverse.mp hc)]
    rfl
  by_cases hs : trimStart s = []
  · have hblank : ∀ c ∈ s ++ r, isBlank c = true :=
      List.forall_mem_append.mpr ⟨List.dropWhile_eq_nil_iff.mp hs, h⟩
    rw [trim, trim, hs, trimStart, List.dropWhile_eq_nil_iff.mpr hblank]
  · rw [trim, trim, trimStart_append hs, hend]

/-- Blanks at the end of a text do not count, but all else does. -/
theorem trim_append_eq_iff : trim (s ++ r) = trim s ↔ ∀ c ∈ r, isBlank c = true := by
  refine ⟨fun h => visible_eq_nil_iff.mp ?_, trim_append_blanks s⟩
  have hvisible := congrArg visible h
  rwa [visible_trim, visible_trim, visible_append, List.append_right_eq_self] at hvisible

theorem trim_take_eq_iff {first : Nat} :
    trim (s.take first) = trim s ↔ ∀ c ∈ s.drop first, isBlank c = true := by
  have h := trim_append_eq_iff (s := s.take first) (r := s.drop first)
  rwa [List.take_append_drop, eq_comm] at h

theorem clip_natCast (limit : Nat) (s : List Char) :
    clip limit s =
      if limit < (trim s).length then (trim s).take limit ++ ellipsis else trim s := by
  rw [clip, upTo, position_natCast]
  simp only [Int.ofNat_lt]

/-- Clipping the first characters is clipping the text, but where the end of the text is lost. -/
theorem clip_upTo (limit first : Nat) (s : List Char) :
    clip limit (upTo first s) =
      if LosesEnd limit first s then trim (s.take first) else clip limit s := by
  rw [upTo, position_natCast, clip_natCast, clip_natCast]
  by_cases hfits : (trim (s.take first)).length ≤ limit
  · rw [if_neg (Nat.not_lt.mpr hfits)]
    by_cases hlost : LosesEnd limit first s
    · rw [if_pos hlost]
    · have hall : ∀ c ∈ s.drop first, isBlank c = true := by
        intro c hc
        by_contra hvisible
        exact hlost ⟨hfits, c, hc, Bool.eq_false_iff.mpr hvisible⟩
      rw [if_neg hlost, ← trim_take_eq_iff.mpr hall, if_neg (Nat.not_lt.mpr hfits)]
  · have hlong := Nat.lt_of_not_le hfits
    have hprefix : trim (s.take first) <+: trim s := by
      have h := trim_isPrefix_append (s.take first) (s.drop first)
      rwa [List.take_append_drop] at h
    rw [if_pos hlong, if_neg fun hlost => hfits hlost.1,
      if_pos (Nat.lt_of_lt_of_le hlong hprefix.length_le)]
    obtain ⟨rest, hrest⟩ := hprefix
    rw [← hrest, List.take_append_of_le_length (Nat.le_of_lt hlong)]

theorem wholeOrMarked_clip (limit : Nat) (s : List Char) : WholeOrMarked (clip limit s) s := by
  rw [clip_natCast]
  split_ifs
  · exact .inr (List.suffix_append ..)
  · exact .inl rfl

/-- Just where the end of a text is lost, the first characters are shown without a mark, unless
there is something like one among them. -/
theorem wholeOrMarked_iff {limit first : Nat} :
    WholeOrMarked (clip limit (upTo first s)) s ↔
      ¬ (LosesEnd limit first s ∧ ¬ ellipsis <:+ trim (s.take first)) := by
  rw [clip_upTo]
  split_ifs with hlost
  · have hpart : trim (s.take first) ≠ trim s := by
      intro h
      obtain ⟨-, c, hc, hvisible⟩ := hlost
      rw [trim_take_eq_iff.mp h c hc] at hvisible
      cases hvisible
    simp [WholeOrMarked, hpart, hlost]
  · exact iff_of_true (wholeOrMarked_clip limit s) fun h => hlost h.1

end Flowchart.Text
