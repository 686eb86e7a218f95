import Flowchart.Mermaid.Check
import Flowchart.Mermaid.Render
import Flowchart.Proofs.Mermaid.Label

/-! Each line of a rendered diagram is read as the box or the edge that it was written for. -/
namespace Flowchart.Mermaid

/-- A letter or an underscore, followed by letters, digits and underscores. -/
def isIdent : List Char → Bool
  | [] => false
  | c :: r => isIdentStart c && r.all isIdentChar

theorem isIdentChar_of_isIdentStart {c : Char} (h : isIdentStart c) : isIdentChar c := by
  simp only [isIdentStart, Bool.or_eq_true, decide_eq_true_eq] at h
  rcases h with h | rfl
  · simp [isIdentChar, Char.isAlphanum, h]
  · decide

private theorem bounds_of_isIdentChar {c : Char} (h : isIdentChar c) :
    0x30 ≤ c.toNat ∧ c.toNat ≤ 0x7A := by
  have hupper (h : c.isUpper) : 0x41 ≤ c.toNat ∧ c.toNat ≤ 0x5A := of_decide_eq_true h
  have hlower (h : c.isLower) : 0x61 ≤ c.toNat ∧ c.toNat ≤ 0x7A :=
    (Bool.and_eq_true_iff.mp h).imp of_decide_eq_true of_decide_eq_true
  have hdigit (h : c.isDigit) : 0x30 ≤ c.toNat ∧ c.toNat ≤ 0x39 := Char.isDigit_iff_toNat.mp h
  rcases Bool.or_eq_true_iff.mp h with h | h
  · rcases Bool.or_eq_true_iff.mp h with h | h
    · rcases Bool.or_eq_true_iff.mp h with h | h
      · have := hupper h
        omega
      · have := hlower h
        omega
    · have := hdigit h
      omega
  · obtain rfl := of_decide_eq_true h
    decide

theorem isSafe_of_isIdentChar {c : Char} (h : isIdentChar c) : isSafe c := by
  have hb := bounds_of_isIdentChar h
  apply isSafe_of_code_eq_none
  · simp only [Text.isPrintable, Bool.and_eq_true, decide_eq_true_eq]
    omega
  · unfold code
    split <;> first
      | rfl
      | exact absurd h (by decide)

theorem not_isBlank_of_isIdentChar {c : Char} (h : isIdentChar c) : Text.isBlank c = false := by
  have hb := bounds_of_isIdentChar h
  simp [Text.isBlank]
  omega

section Ident
variable {s r : List Char}

theorem isIdentChar_of_mem (hs : isIdent s) {c : Char} (hc : c ∈ s) : isIdentChar c := by
  cases s with
  | nil => cases hc
  | cons d s =>
    obtain ⟨hd, hs⟩ := Bool.and_eq_true_iff.mp hs
    rcases List.mem_cons.mp hc with rfl | hc
    · exact isIdentChar_of_isIdentStart hd
    · exact List.all_eq_true.mp hs c hc

theorem ne_nil_of_isIdent (hs : isIdent s) : s ≠ [] := by
  rintro rfl
  cases hs

theorem head_visible_of_isIdent (hs : isIdent s) : ∀ c ∈ s.head?, Text.isBlank c = false :=
  fun _ hc => not_isBlank_of_isIdentChar (isIdentChar_of_mem hs (List.mem_of_mem_head? hc))

theorem last_visible_of_isIdent (hs : isIdent s) : ∀ c ∈ s.getLast?, Text.isBlank c = false :=
  fun _ hc => not_isBlank_of_isIdentChar (isIdentChar_of_mem hs (List.mem_of_mem_getLast? hc))

theorem ident?_append (hs : isIdent s) (hr : ∀ c ∈ r.head?, isIdentChar c = false) :
    ident? (s ++ r) = some (s, r) := by
  cases s with
  | nil => cases hs
  | cons c s =>
    obtain ⟨hc, hs⟩ := Bool.and_eq_true_iff.mp hs
    have hs := List.all_eq_true.mp hs
    have htake : r.takeWhile isIdentChar = [] := by
      cases r with
      | nil => rfl
      | cons d r => rw [List.takeWhile_cons_of_neg (by simp [hr d rfl])]
    rw [List.cons_append, ident?, if_pos hc, List.takeWhile_append_of_pos hs,
      List.dropWhile_append_of_pos hs, htake, Text.dropWhile_eq_self hr, List.append_nil]

theorem ident?_append_cons (hs : isIdent s) {d : Char} (hd : isIdentChar d = false) :
    ident? (s ++ d :: r) = some (s, d :: r) := by
  apply ident?_append hs
  rintro c ⟨rfl⟩
  exact hd

theorem afterBlanks?_space (hr : ∀ c ∈ r.head?, Text.isBlank c = false) :
    afterBlanks? (' ' :: r) = some r := by
  rw [afterBlanks?, if_pos (by decide), Text.dropWhile_eq_self hr]

end Ident

section Occurrences
variable {c : Char} {word s : List Char}

theorem occurrences_eq_zero (hc : c ∈ word) (hs : c ∉ s) : occurrences word s = 0 := by
  induction s with
  | nil => rfl
  | cons d s ih =>
    have hword : ¬ word.isPrefixOf (d :: s) := fun h =>
      hs ((List.isPrefixOf_iff_prefix.mp h).subset hc)
    rw [occurrences, if_neg hword, ih (mt (List.mem_cons_of_mem d) hs)]

theorem occurrences_append (hc : word.head? = some c) (hs : c ∉ s) (r : List Char) :
    occurrences word (s ++ r) = occurrences word r := by
  induction s with
  | nil => rfl
  | cons d s ih =>
    have hword : ¬ word.isPrefixOf (d :: (s ++ r)) := by
      intro h
      obtain ⟨t, ht⟩ := List.isPrefixOf_iff_prefix.mp h
      have hd : some d = word.head? := by rw [← List.head?_cons, ← ht, List.head?_append, hc]; rfl
      exact hs (Option.some.inj (hd.trans hc) ▸ List.mem_cons_self ..)
    rw [List.cons_append, occurrences, if_neg hword, ih (mt (List.mem_cons_of_mem d) hs),
      Nat.zero_add]

end Occurrences

theorem toList_nodeLine (n : RenderNode) : ∃ left right : List Char,
    (nodeLine n).toList = n.id.toList ++ left ++ (label n.fullLabel n.kind.name).toList ++ right ∧
    (isDecision n.kind ∧ left = ['\x7b', '\x7b'] ∧ right = ['\x7d', '\x7d'] ∨
      isDecision n.kind = false ∧ left = ['['] ∧ right = [']']) := by
  unfold nodeLine
  cases hk : isDecision n.kind with
  | true => exact ⟨_, _, by simp [String.toList_append], .inl ⟨rfl, rfl, rfl⟩⟩
  | false => exact ⟨_, _, by simp [String.toList_append], .inr ⟨rfl, rfl, rfl⟩⟩

/-- What stands between an arrow and the end of its edge. -/
def edgeText (e : Edge) : List Char :=
  (e.label.filter (· ≠ "")).elim [] fun l => '|' :: (label l defaultLabel).toList ++ ['|', ' ']

theorem toList_edgeLine (e : Edge) : (edgeLine e).toList =
    e.source.toList ++ ' ' :: ((arrow e.cls).toList ++ ' ' :: (edgeText e ++ e.target.toList)) := by
  unfold edgeLine edgeText
  cases e.label.filter (· ≠ "") with
  | none => simp [String.toList_append]
  | some l => simp [String.toList_append]

theorem edgeText_cases (e : Edge) : edgeText e = [] ∨
    ∃ s, (∀ c ∈ s, isSafe c) ∧ edgeText e = '|' :: s ++ ['|', ' '] := by
  unfold edgeText
  cases e.label.filter (· ≠ "") with
  | none => exact .inl rfl
  | some l => exact .inr ⟨_, isSafe_label (List.all_eq_true.mp (by decide)), rfl⟩

theorem mem_edgeText {e : Edge} {c : Char} (hc : c ∈ edgeText e) : isSafe c ∨ c = '|' := by
  rcases edgeText_cases e with he | ⟨s, hs, he⟩
  · rw [he] at hc
    cases hc
  · rw [he] at hc
    simp only [List.cons_append, List.mem_cons, List.mem_append, List.not_mem_nil, or_false] at hc
    rcases hc with hc | hc | hc | rfl
    · exact .inr hc
    · exact .inl (hs c hc)
    · exact .inr hc
    · exact .inl (by decide)

section NodeLine
variable {n : RenderNode} (h : isIdent n.id.toList)
include h

theorem ident?_nodeLine : ∃ r, ident? (nodeLine n).toList = some (n.id.toList, r) ∧
    (isDecision n.kind ∧ (∃ s, r = '\x7b' :: '\x7b' :: s) ∨
      isDecision n.kind = false ∧ ∃ s, r = '[' :: s) := by
  obtain ⟨left, right, hline, ⟨hk, rfl, -⟩ | ⟨hk, rfl, -⟩⟩ := toList_nodeLine n
  · rw [hline, List.append_assoc, List.append_assoc]
    exact ⟨_, ident?_append_cons h (by decide), .inl ⟨hk, _, rfl⟩⟩
  · rw [hline, List.append_assoc, List.append_assoc]
    exact ⟨_, ident?_append_cons h (by decide), .inr ⟨hk, _, rfl⟩⟩

theorem readNode?_nodeLine :
    readNode? (nodeLine n).toList = some (n.id.toList, isDecision n.kind) := by
  obtain ⟨r, hr, ⟨hk, s, rfl⟩ | ⟨hk, s, rfl⟩⟩ := ident?_nodeLine h
  · rw [readNode?, hr, hk]
    rfl
  · rw [readNode?, hr, hk]
    rfl

theorem readEdge?_nodeLine : readEdge? (nodeLine n).toList = none := by
  obtain ⟨r, hr, ⟨-, s, rfl⟩ | ⟨-, s, rfl⟩⟩ := ident?_nodeLine h
  · rw [readEdge?, hr]
    rfl
  · rw [readEdge?, hr]
    rfl

/-- A box line has no character that the check objects to. -/
theorem mem_nodeLine {c : Char} (hc : c ∈ (nodeLine n).toList) :
    Text.isPrintable c ∧ c ≠ '&' ∧ c ≠ '>' := by
  have hsafe {c : Char} (hc : isSafe c) : Text.isPrintable c ∧ c ≠ '&' ∧ c ≠ '>' :=
    ⟨isPrintable_of_isSafe hc, ne_of_isSafe hc (by decide), ne_of_isSafe hc (by decide)⟩
  obtain ⟨left, right, hline, hk⟩ := toList_nodeLine n
  have hbrackets : ∀ c ∈ left ++ right, Text.isPrintable c ∧ c ≠ '&' ∧ c ≠ '>' := by
    rcases hk with ⟨-, rfl, rfl⟩ | ⟨-, rfl, rfl⟩
    · simp [Text.isPrintable]
    · simp [Text.isPrintable]
  rw [hline] at hc
  simp only [List.mem_append] at hc hbrackets
  rcases hc with ((hc | hc) | hc) | hc
  · exact hsafe (isSafe_of_isIdentChar (isIdentChar_of_mem h hc))
  · exact hbrackets c (.inl hc)
  · exact hsafe (isSafe_label (isSafe_kindName n.kind) c hc)
  · exact hbrackets c (.inr hc)

theorem arrows_nodeLine :
    occurrences solidArrow (nodeLine n).toList + occurrences dottedArrow (nodeLine n).toList =
      0 := by
  have hhead : '>' ∉ (nodeLine n).toList := fun hc => (mem_nodeLine h hc).2.2 rfl
  rw [occurrences_eq_zero (by decide) hhead, occurrences_eq_zero (by decide) hhead]

theorem isLine_nodeLine : Text.IsLine (nodeLine n).toList := by
  obtain ⟨left, right, hline, hk⟩ := toList_nodeLine n
  have hne : n.id.toList ≠ [] := ne_nil_of_isIdent h
  constructor
  · exact fun c hc => Text.not_isLineBreak_of_isPrintable (mem_nodeLine h hc).1
  · simp [hline, hne]
  · rw [hline, List.append_assoc, List.append_assoc, List.head?_append_of_ne_nil _ hne]
    exact head_visible_of_isIdent h
  · rcases hk with ⟨-, -, rfl⟩ | ⟨-, -, rfl⟩
    · rw [hline, List.getLast?_append_of_ne_nil _ (by simp)]
      simp [Text.isBlank]
    · rw [hline, List.getLast?_append_of_ne_nil _ (by simp)]
      simp [Text.isBlank]

end NodeLine

theorem arrow_cases (c : EdgeClass) : c = .exceptionPath ∧ (arrow c).toList = dottedArrow ∨
    c ≠ .exceptionPath ∧ (arrow c).toList = solidArrow := by
  unfold arrow
  split_ifs with hc
  · exact .inl ⟨hc, rfl⟩
  · exact .inr ⟨hc, rfl⟩

theorem afterArrow?_arrow (c : EdgeClass) (r : List Char) :
    afterArrow? ((arrow c).toList ++ r) = some (decide (c = .exceptionPath), r) := by
  rcases arrow_cases c with ⟨hc, harrow⟩ | ⟨hc, harrow⟩
  · rw [harrow, decide_eq_true hc]
    rfl
  · rw [harrow, decide_eq_false hc]
    rfl

/-- A text without arrows has one after an arrow was put in front of it. -/
private theorem arrows_arrow (c : EdgeClass) {r : List Char} (hr : '>' ∉ r) :
    occurrences solidArrow ((arrow c).toList ++ r) +
      occurrences dottedArrow ((arrow c).toList ++ r) = 1 := by
  have hs : solidArrow = ['-', '-', '>'] := rfl
  have hd : dottedArrow = ['-', '.', '-', '>'] := rfl
  have hsolid : occurrences ['-', '-', '>'] r = 0 := occurrences_eq_zero (by simp) hr
  have hdotted : occurrences ['-', '.', '-', '>'] r = 0 := occurrences_eq_zero (by simp) hr
  rcases arrow_cases c with ⟨-, harrow⟩ | ⟨-, harrow⟩
  · rw [harrow, hs, hd]
    simp [occurrences, hsolid, hdotted]
  · rw [harrow, hs, hd]
    simp [occurrences, hsolid, hdotted]

theorem afterEdgeLabel?_edgeText {e : Edge} (ht : isIdent e.target.toList) :
    afterEdgeLabel? (edgeText e ++ e.target.toList) = some e.target.toList := by
  rcases edgeText_cases e with he | ⟨s, hs, he⟩
  · rw [he, List.nil_append]
    unfold afterEdgeLabel?
    split
    · rename_i hbar
      exact absurd (isIdentChar_of_mem ht (hbar ▸ List.mem_cons_self ..)) (by decide)
    · rfl
  · have hbar : ∀ c ∈ s, decide (c ≠ '|') = true := by
      intro c hc
      rw [decide_eq_true_iff]
      exact ne_of_isSafe (hs c hc) (by decide)
    rw [he, List.cons_append, List.cons_append, List.append_assoc, afterEdgeLabel?,
      List.dropWhile_append_of_pos hbar]
    exact afterBlanks?_space (head_visible_of_isIdent ht)

section EdgeLine
variable {e : Edge} (hs : isIdent e.source.toList) (ht : isIdent e.target.toList)
include hs ht

theorem readEdge?_edgeLine :
    readEdge? (edgeLine e).toList =
      some ⟨e.source.toList, e.cls = .exceptionPath, e.target.toList⟩ := by
  have hsource (r : List Char) :
      ident? (e.source.toList ++ ' ' :: r) = some (e.source.toList, ' ' :: r) :=
    ident?_append_cons hs (by decide)
  have htarget : ident? e.target.toList = some (e.target.toList, []) := by
    simpa using ident?_append ht (r := []) (by simp)
  have harrow (r : List Char) :
      afterBlanks? (' ' :: ((arrow e.cls).toList ++ r)) = some ((arrow e.cls).toList ++ r) := by
    rcases arrow_cases e.cls with ⟨-, h⟩ | ⟨-, h⟩
    · rw [h]
      rfl
    · rw [h]
      rfl
  have htext : afterBlanks? (' ' :: (edgeText e ++ e.target.toList)) =
      some (edgeText e ++ e.target.toList) := by
    apply afterBlanks?_space
    rcases edgeText_cases e with h | ⟨s, -, h⟩
    · rw [h]
      exact head_visible_of_isIdent ht
    · rw [h]
      simp [Text.isBlank]
  rw [readEdge?, toList_edgeLine, hsource]
  simp only [Option.bind_eq_bind, Option.bind_some, harrow, afterArrow?_arrow, htext,
    afterEdgeLabel?_edgeText ht, htarget]
  rfl

theorem arrows_edgeLine :
    occurrences solidArrow (edgeLine e).toList + occurrences dottedArrow (edgeLine e).toList =
      1 := by
  have hdash : '-' ∉ e.source.toList ++ [' '] := by
    intro hc
    rcases List.mem_append.mp hc with hc | hc
    · exact absurd (isIdentChar_of_mem hs hc) (by decide)
    · exact absurd hc (by decide)
  have hhead : '>' ∉ ' ' :: (edgeText e ++ e.target.toList) := by
    intro hc
    rw [List.mem_cons, List.mem_append] at hc
    rcases hc with hc | hc | hc
    · exact absurd hc (by decide)
    · rcases mem_edgeText hc with hc | hc
      · exact absurd hc (by decide)
      · exact absurd hc (by decide)
    · exact absurd (isIdentChar_of_mem ht hc) (by decide)
  have hline : (edgeLine e).toList = (e.source.toList ++ [' ']) ++
      ((arrow e.cls).toList ++ ' ' :: (edgeText e ++ e.target.toList)) := by
    rw [toList_edgeLine]
    simp
  rw [hline, occurrences_append (by rfl) hdash, occurrences_append (by rfl) hdash]
  exact arrows_arrow e.cls hhead

theorem mem_edgeLine {c : Char} (hc : c ∈ (edgeLine e).toList) : Text.isPrintable c ∧ c ≠ '&' := by
  have hsafe {c : Char} (hc : isSafe c) : Text.isPrintable c ∧ c ≠ '&' :=
    ⟨isPrintable_of_isSafe hc, ne_of_isSafe hc (by decide)⟩
  have harrow : ∀ c ∈ ' ' :: (arrow e.cls).toList, Text.isPrintable c ∧ c ≠ '&' := by
    rcases arrow_cases e.cls with ⟨-, h⟩ | ⟨-, h⟩
    · simp [h, dottedArrow, Text.isPrintable]
    · simp [h, solidArrow, Text.isPrintable]
  rw [toList_edgeLine] at hc
  simp only [List.mem_append, List.mem_cons] at hc harrow
  rcases hc with hc | hc | hc | hc | hc | hc
  · exact hsafe (isSafe_of_isIdentChar (isIdentChar_of_mem hs hc))
  · exact harrow c (.inl hc)
  · exact harrow c (.inr hc)
  · exact harrow c (.inl hc)
  · rcases mem_edgeText hc with hc | rfl
    · exact hsafe hc
    · decide
  · exact hsafe (isSafe_of_isIdentChar (isIdentChar_of_mem ht hc))

theorem isLine_edgeLine : Text.IsLine (edgeLine e).toList := by
  have hne := ne_nil_of_isIdent hs
  constructor
  · exact fun c hc => Text.not_isLineBreak_of_isPrintable (mem_edgeLine hs ht hc).1
  · simp [toList_edgeLine, hne]
  · rw [toList_edgeLine, List.head?_append_of_ne_nil _ hne]
    exact head_visible_of_isIdent hs
  · have hline : (edgeLine e).toList = (e.source.toList ++ ' ' :: ((arrow e.cls).toList ++
        ' ' :: edgeText e)) ++ e.target.toList := by
      rw [toList_edgeLine]
      simp
    rw [hline, List.getLast?_append_of_ne_nil _ (ne_nil_of_isIdent ht)]
    exact last_visible_of_isIdent ht

end EdgeLine

end Flowchart.Mermaid
