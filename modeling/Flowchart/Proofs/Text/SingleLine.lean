import Flowchart.Proofs.Text.Lines
import Mathlib.Data.List.Chain
import Mathlib.Data.List.DropRight

/-! Texts on one line. Their blanks stand one by one between other characters; a text of that form
with spaces for its blanks is left as it is. -/
namespace Flowchart.Text

/-- Blanks stand between other characters, never two in a row. -/
structure IsSpaced (s : List Char) : Prop where
  head_visible : ∀ c ∈ s.head?, isBlank c = false
  last_visible : ∀ c ∈ s.getLast?, isBlank c = false
  single : s.IsChain fun c d => isBlank c = true → isBlank d = false

variable {s r : List Char}

theorem eq_space_of_isPrintable {c : Char} (hp : isPrintable c) (hb : isBlank c) :
    c = ' ' := by
  simp only [isPrintable, Bool.and_eq_true, decide_eq_true_eq] at hp
  simp [isBlank] at hb
  apply Char.ext
  apply UInt32.toNat_inj.mp
  have hn : c.val.toNat = c.toNat := rfl
  have hs : ' '.val.toNat = 32 := rfl
  omega

theorem trimEnd_isPrefix (s : List Char) : trimEnd s <+: s :=
  List.rdropWhile_prefix ..

theorem last_visible_trimEnd (s : List Char) : ∀ c ∈ (trimEnd s).getLast?, isBlank c = false := by
  intro c hc
  obtain ⟨hne, rfl⟩ := List.mem_getLast?_eq_getLast hc
  exact Bool.eq_false_iff.mpr (List.rdropWhile_last_not isBlank s hne)

theorem trimEnd_eq_self (h : ∀ c ∈ s.getLast?, isBlank c = false) : trimEnd s = s := by
  refine List.rdropWhile_eq_self_iff.mpr fun hne => ?_
  rw [h _ (List.getLast_mem_getLast? hne)]
  exact Bool.false_ne_true

theorem head_visible_trimStart (s : List Char) :
    ∀ c ∈ (trimStart s).head?, isBlank c = false := by
  intro c hc
  have hnot := List.head?_dropWhile_not isBlank s
  rw [show (s.dropWhile isBlank).head? = some c from hc] at hnot
  exact hnot

theorem isChain_collapseFrom (inRun : Bool) (s : List Char) :
    (inRun = true → ∀ c ∈ (collapseFrom inRun s).head?, isBlank c = false) ∧
      (collapseFrom inRun s).IsChain fun c d => isBlank c = true → isBlank d = false := by
  induction s generalizing inRun with
  | nil => exact ⟨nofun, .nil⟩
  | cons c s ih =>
    rw [collapseFrom]
    split
    · split
      · exact ⟨fun _ => (ih true).1 rfl, (ih true).2⟩
      · rename_i hrun
        exact ⟨fun h => absurd h hrun, List.isChain_cons.mpr ⟨fun d hd _ => (ih true).1 rfl d hd,
          (ih true).2⟩⟩
    · rename_i hc
      refine ⟨fun _ d hd => ?_, List.isChain_cons.mpr ⟨fun d _ h => absurd h hc, (ih false).2⟩⟩
      obtain rfl := Option.some.inj hd
      simpa using hc

/-- A part at the start that ends with a visible character. -/
theorem IsSpaced.of_isPrefix (hhead : ∀ c ∈ s.head?, isBlank c = false)
    (hsingle : s.IsChain fun c d => isBlank c = true → isBlank d = false) (hr : r <+: s)
    (hlast : ∀ c ∈ r.getLast?, isBlank c = false) : IsSpaced r where
  head_visible c hc := by
    obtain ⟨rest, rfl⟩ := hr
    exact hhead c (by rw [List.head?_append, Option.mem_def.mp hc]; rfl)
  last_visible := hlast
  single := List.IsChain.infix hsingle hr.isInfix

theorem IsSpaced.no_two_spaces (h : IsSpaced s) : ¬ [' ', ' '] <:+: s := by
  intro hs
  have hpair := List.IsChain.infix h.single hs
  exact absurd ((List.isChain_cons_cons.mp hpair).1 (by decide)) (by decide)

theorem isSpaced_singleLine (s : List Char) : IsSpaced (singleLine s) := by
  have hsingle := (isChain_collapseFrom false s).2
  have hstart : trimStart (collapse s) <:+: collapse s := (List.dropWhile_suffix _).isInfix
  have hchain := List.IsChain.infix hsingle hstart
  exact .of_isPrefix (head_visible_trimStart _) hchain (trimEnd_isPrefix _) (last_visible_trimEnd _)

/-- Visible characters after a part that ends with one. -/
theorem IsSpaced.append_visible (h : IsSpaced r) (hs : ∀ c ∈ s, isBlank c = false) :
    IsSpaced (r ++ s) where
  head_visible c hc := by
    rw [List.head?_append, Option.mem_def, Option.or_eq_some_iff] at hc
    rcases hc with hc | ⟨-, hc⟩
    · exact h.head_visible c hc
    · exact hs c (List.mem_of_mem_head? hc)
  last_visible c hc := by
    rw [List.getLast?_append, Option.mem_def, Option.or_eq_some_iff] at hc
    rcases hc with hc | ⟨-, hc⟩
    · exact hs c (List.mem_of_mem_getLast? hc)
    · exact h.last_visible c hc
  single := by
    refine List.isChain_append.mpr ⟨h.single, ?_, fun _ _ d hd _ => hs d (List.mem_of_mem_head? hd)⟩
    refine List.Pairwise.isChain (List.pairwise_of_forall_mem_list fun _ _ d hd _ => hs d hd)

/-- A text written character by character, each by visible characters or, if it is blank, by blanks
that do not come in a row. -/
theorem IsSpaced.flatMap {f : Char → List Char} (hne : ∀ c, f c ≠ [])
    (hblank : ∀ c, ∀ d ∈ f c, isBlank d = isBlank c)
    (hsingle : ∀ c, (f c).IsChain fun d e => isBlank d = true → isBlank e = false)
    (h : IsSpaced s) : IsSpaced (s.flatMap f) where
  head_visible d hd := by
    cases s with
    | nil => cases hd
    | cons c s =>
      rw [List.flatMap_cons, List.head?_append_of_ne_nil _ (hne c)] at hd
      rw [hblank c d (List.mem_of_mem_head? hd)]
      exact h.head_visible c rfl
  last_visible d hd := by
    rcases List.eq_nil_or_concat' s with rfl | ⟨init, c, rfl⟩
    · cases hd
    · rw [List.flatMap_append, List.flatMap_singleton,
        List.getLast?_append_of_ne_nil _ (hne c)] at hd
      rw [hblank c d (List.mem_of_mem_getLast? hd)]
      exact h.last_visible c List.getLast?_concat
  single := by
    have hparts : [] ∉ s.map f := by
      intro hmem
      obtain ⟨c, -, hc⟩ := List.mem_map.mp hmem
      exact hne c hc
    rw [List.flatMap_def, List.isChain_flatten hparts, List.isChain_map]
    refine ⟨List.forall_mem_map.mpr fun c _ => hsingle c, h.single.imp fun c d hcd => ?_⟩
    intro x hx y hy hb
    rw [hblank d y (List.mem_of_mem_head? hy)]
    exact hcd ((hblank c x (List.mem_of_mem_getLast? hx)).symm.trans hb)

theorem collapseFrom_eq_self {inRun : Bool}
    (hsingle : s.IsChain fun c d => isBlank c = true → isBlank d = false)
    (hspace : ∀ c ∈ s, isBlank c = true → c = ' ')
    (hrun : inRun = true → ∀ c ∈ s.head?, isBlank c = false) : collapseFrom inRun s = s := by
  induction s generalizing inRun with
  | nil => rfl
  | cons c s ih =>
    obtain ⟨hnext, htail⟩ := List.isChain_cons.mp hsingle
    have hrest := fun d hd => hspace d (List.mem_cons_of_mem c hd)
    rw [collapseFrom]
    split
    · rename_i hc
      rw [if_neg (fun h => by simp [hrun h c rfl] at hc),
        ih htail hrest fun _ d hd => hnext d hd hc, hspace c List.mem_cons_self hc]
    · rw [ih htail hrest (by simp)]

theorem singleLine_eq_self (h : IsSpaced s) (hspace : ∀ c ∈ s, isBlank c = true → c = ' ') :
    singleLine s = s := by
  rw [singleLine, collapse, collapseFrom_eq_self h.single hspace (by simp), trim, trimStart,
    dropWhile_eq_self h.head_visible, trimEnd_eq_self h.last_visible]

theorem mem_collapseFrom {c : Char} {inRun : Bool} (hc : c ∈ s) (hb : isBlank c = false) :
    c ∈ collapseFrom inRun s := by
  induction s generalizing inRun with
  | nil => cases hc
  | cons d s ih =>
    rw [collapseFrom]
    rcases List.mem_cons.mp hc with rfl | hc
    · rw [hb]
      exact List.mem_cons_self
    · split
      · split
        · exact ih hc
        · exact List.mem_cons_of_mem _ (ih hc)
      · exact List.mem_cons_of_mem _ (ih hc)

theorem mem_dropWhile {c : Char} (hc : c ∈ s) (hb : isBlank c = false) :
    c ∈ s.dropWhile isBlank := by
  rw [← List.takeWhile_append_dropWhile (p := isBlank) (l := s)] at hc
  rcases List.mem_append.mp hc with hc | hc
  · rw [List.mem_takeWhile_imp hc] at hb
    cases hb
  · exact hc

/-- What is visible in a text is still there on one line. -/
theorem mem_singleLine {c : Char} (hc : c ∈ s) (hb : isBlank c = false) : c ∈ singleLine s := by
  have hstart : c ∈ trimStart (collapse s) := mem_dropWhile (mem_collapseFrom hc hb) hb
  exact List.mem_reverse.mpr (mem_dropWhile (List.mem_reverse.mpr hstart) hb)

theorem singleLine_eq_nil_iff : singleLine s = [] ↔ ∀ c ∈ s, isBlank c = true := by
  constructor
  · intro h c hc
    by_contra hb
    have hmem := mem_singleLine hc (Bool.eq_false_iff.mpr hb)
    rw [h] at hmem
    cases hmem
  · intro h
    cases hline : singleLine s with
    | nil => rfl
    | cons c line =>
      have hvisible := (isSpaced_singleLine s).head_visible c (by rw [hline]; rfl)
      rcases mem_of_mem_singleLine (hline ▸ List.mem_cons_self : c ∈ singleLine s) with
        rfl | ⟨hc, -⟩
      · exact absurd hvisible (by decide)
      · rw [h c hc] at hvisible
        cases hvisible

end Flowchart.Text
