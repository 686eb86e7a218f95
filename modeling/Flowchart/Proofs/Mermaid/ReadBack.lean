import Flowchart.Proofs.Mermaid.Check

/-! A rendered diagram can be read back: its lines are one for each box and then one for each edge,
and each line matches one pattern only, in one way only. -/
namespace Flowchart
namespace Mermaid

/-- One or more blanks. -/
def IsBlanks (s : List Char) : Prop :=
  s ≠ [] ∧ ∀ c ∈ s, Text.isBlank c

/-- The pattern of boxes: an identifier and an opening bracket, with anything after them. -/
def MatchesNode (line id : List Char) (decision : Bool) : Prop :=
  isIdent id ∧ ∃ rest, line = id ++ ((if decision then ['\x7b', '\x7b'] else ['[']) ++ rest)

/-- A text between bars and blanks after it, or nothing. -/
inductive IsEdgeLabel : List Char → Prop
  | none : IsEdgeLabel []
  | some {text blanks : List Char} : '|' ∉ text → IsBlanks blanks →
      IsEdgeLabel ('|' :: (text ++ '|' :: blanks))

def arrowText (dotted : Bool) : List Char :=
  if dotted then dottedArrow else solidArrow

/-- The pattern of edges: two identifiers with an arrow between them, and perhaps a label after the
arrow. A line feed may follow. -/
def MatchesEdge (line : List Char) (e : EdgeLine) : Prop :=
  isIdent e.source ∧ isIdent e.target ∧ ∃ blanks blanks' text stop,
    IsBlanks blanks ∧ IsBlanks blanks' ∧ IsEdgeLabel text ∧ (stop = [] ∨ stop = ['\n']) ∧
    line = e.source ++ (blanks ++ (arrowText e.dotted ++ (blanks' ++ (text ++ (e.target ++ stop)))))

section Readers
variable {s r : List Char}

/-- A text falls apart where a property of its characters ends. -/
private theorem takeWhile_dropWhile_iff {p : Char → Bool} {front : List Char} :
    s.takeWhile p = front ∧ s.dropWhile p = r ↔
      s = front ++ r ∧ (∀ c ∈ front, p c) ∧ ∀ c ∈ r.head?, p c = false := by
  constructor
  · rintro ⟨rfl, rfl⟩
    refine ⟨List.takeWhile_append_dropWhile.symm, List.all_eq_true.mp List.all_takeWhile, ?_⟩
    intro c hc
    have hhead := List.head?_dropWhile_not p s
    rwa [Option.mem_def.mp hc] at hhead
  · rintro ⟨rfl, hfront, hr⟩
    have htake : r.takeWhile p = [] := by
      cases r with
      | nil => rfl
      | cons c r => rw [List.takeWhile_cons_of_neg (by simp [hr c rfl])]
    rw [List.takeWhile_append_of_pos hfront, List.dropWhile_append_of_pos hfront, htake,
      List.append_nil, Text.dropWhile_eq_self hr]
    exact ⟨rfl, rfl⟩

theorem ident?_eq_some_iff {id : List Char} : ident? s = some (id, r) ↔
    isIdent id ∧ s = id ++ r ∧ ∀ c ∈ r.head?, isIdentChar c = false := by
  constructor
  · intro h
    cases s with
    | nil => cases h
    | cons c s =>
      rw [ident?] at h
      split_ifs at h with hc
      obtain ⟨rfl, hr⟩ := Prod.mk.inj (Option.some.inj h)
      obtain ⟨hs, hfront, hr⟩ := takeWhile_dropWhile_iff.mp ⟨rfl, hr⟩
      refine ⟨?_, by rw [List.cons_append, ← hs], hr⟩
      rw [isIdent, hc, Bool.true_and]
      exact List.all_eq_true.mpr hfront
  · rintro ⟨hid, rfl, hr⟩
    exact ident?_append hid hr

theorem afterBlanks?_eq_some_iff : afterBlanks? s = some r ↔
    ∃ blanks, IsBlanks blanks ∧ s = blanks ++ r ∧ ∀ c ∈ r.head?, Text.isBlank c = false := by
  constructor
  · intro h
    cases s with
    | nil => cases h
    | cons c s =>
      rw [afterBlanks?] at h
      split_ifs at h with hc
      obtain ⟨hs, hfront, hr⟩ := takeWhile_dropWhile_iff.mp ⟨rfl, Option.some.inj h⟩
      refine ⟨c :: s.takeWhile Text.isBlank, ⟨List.cons_ne_nil _ _, ?_⟩, ?_, hr⟩
      · exact List.forall_mem_cons.mpr ⟨hc, hfront⟩
      · rw [List.cons_append, ← hs]
  · rintro ⟨blanks, ⟨hne, hblanks⟩, rfl, hr⟩
    obtain ⟨c, blanks, rfl⟩ := List.exists_cons_of_ne_nil hne
    obtain ⟨hc, hblanks⟩ := List.forall_mem_cons.mp hblanks
    rw [List.cons_append, afterBlanks?, if_pos hc, List.dropWhile_append_of_pos hblanks,
      Text.dropWhile_eq_self hr]

theorem afterArrow?_eq_some_iff {dotted : Bool} :
    afterArrow? s = some (dotted, r) ↔ s = arrowText dotted ++ r := by
  constructor
  · intro h
    unfold afterArrow? at h
    split at h <;> cases h <;> rfl
  · rintro rfl
    cases dotted <;> rfl

theorem afterEdgeLabel?_eq_some_iff (hr : ∀ c ∈ r.head?, Text.isBlank c = false ∧ c ≠ '|') :
    afterEdgeLabel? s = some r ↔ ∃ text, IsEdgeLabel text ∧ s = text ++ r := by
  constructor
  · intro h
    unfold afterEdgeLabel? at h
    split at h
    · rename_i s
      split at h
      · rename_i c s' hs'
        obtain ⟨hs, hfront, hbar⟩ := takeWhile_dropWhile_iff.mp ⟨rfl, hs'⟩
        obtain rfl : c = '|' := by simpa using hbar c rfl
        obtain ⟨blanks, hblanks, rfl, -⟩ := afterBlanks?_eq_some_iff.mp h
        refine ⟨'|' :: (s.takeWhile (· ≠ '|') ++ '|' :: blanks), .some ?_ hblanks, ?_⟩
        · exact fun hc => absurd (hfront _ hc) (by decide)
        · rw [List.cons_append, List.append_assoc, List.cons_append, ← hs]
      · cases h
    · obtain rfl := Option.some.inj h
      exact ⟨[], .none, rfl⟩
  · rintro ⟨text, htext, rfl⟩
    cases htext with
    | none =>
      cases r with
      | nil => rfl
      | cons c r =>
        rw [List.nil_append, afterEdgeLabel?]
        rintro r' ⟨rfl, -⟩
        exact (hr '|' rfl).2 rfl
    | @some text blanks hbar hblanks =>
      have htext : ∀ c ∈ text, decide (c ≠ '|') = true :=
        fun c hc => decide_eq_true fun he => hbar (he ▸ hc)
      rw [List.cons_append, List.append_assoc, List.cons_append, afterEdgeLabel?,
        List.dropWhile_append_of_pos htext]
      exact afterBlanks?_eq_some_iff.mpr ⟨blanks, hblanks, rfl, fun c hc => (hr c hc).1⟩

/-- What may stand between blanks and other things begins with neither a blank nor a bar. -/
theorem head_of_isIdent (hs : isIdent s) :
    ∀ c ∈ (s ++ r).head?, Text.isBlank c = false ∧ c ≠ '|' := by
  rw [List.head?_append_of_ne_nil _ (ne_nil_of_isIdent hs)]
  intro c hc
  have hc := isIdentChar_of_mem hs (List.mem_of_mem_head? hc)
  refine ⟨not_isBlank_of_isIdentChar hc, ?_⟩
  rintro rfl
  exact absurd hc (by decide)

theorem head_of_isBlanks (hs : IsBlanks s) : ∀ c ∈ (s ++ r).head?, isIdentChar c = false := by
  rw [List.head?_append_of_ne_nil _ hs.1]
  intro c hc
  have hblank := hs.2 c (List.mem_of_mem_head? hc)
  cases hident : isIdentChar c with
  | false => rfl
  | true => exact absurd (not_isBlank_of_isIdentChar hident) (by simp [hblank])

theorem head_of_arrowText (dotted : Bool) :
    ∀ c ∈ (arrowText dotted ++ r).head?, Text.isBlank c = false := by
  cases dotted <;> rintro c ⟨rfl⟩ <;> decide

theorem head_of_edgeLabel {text : List Char} (htext : IsEdgeLabel text) (hs : isIdent s) :
    ∀ c ∈ (text ++ (s ++ r)).head?, Text.isBlank c = false := by
  cases htext with
  | none => exact fun c hc => (head_of_isIdent hs c hc).1
  | some _ _ =>
    rintro c ⟨rfl⟩
    decide

end Readers

/-- A line is read as a box just when it matches the pattern of boxes. -/
theorem readNode?_eq_some_iff {line id : List Char} {decision : Bool} :
    readNode? line = some (id, decision) ↔ MatchesNode line id decision := by
  constructor
  · intro h
    unfold readNode? at h
    split at h
    · rename_i hread
      cases h
      obtain ⟨hid, rfl, -⟩ := ident?_eq_some_iff.mp hread
      exact ⟨hid, _, rfl⟩
    · rename_i hread
      cases h
      obtain ⟨hid, rfl, -⟩ := ident?_eq_some_iff.mp hread
      exact ⟨hid, _, rfl⟩
    · cases h
  · rintro ⟨hid, rest, rfl⟩
    cases decision with
    | true =>
      rw [readNode?, if_pos rfl, List.cons_append, ident?_append_cons hid (by decide)]
      rfl
    | false =>
      rw [readNode?, if_neg (by decide), List.cons_append, ident?_append_cons hid (by decide)]
      rfl

/-- A line is read as an edge just when it matches the pattern of edges. -/
theorem readEdge?_eq_some_iff {line : List Char} {e : EdgeLine} (hline : '\n' ∉ line) :
    readEdge? line = some e ↔ MatchesEdge line e := by
  constructor
  · intro h
    simp only [readEdge?, Option.bind_eq_bind, Option.bind_eq_some_iff, Prod.exists] at h
    obtain ⟨source, r₁, h₁, r₂, h₂, dotted, r₃, h₃, r₄, h₄, r₅, h₅, target, stop, h₆, hstop⟩ := h
    split_ifs at hstop with hnil
    obtain rfl := Option.some.inj hstop
    obtain rfl := List.isEmpty_iff.mp hnil
    obtain ⟨hsource, rfl, -⟩ := ident?_eq_some_iff.mp h₁
    obtain ⟨blanks, hblanks, rfl, -⟩ := afterBlanks?_eq_some_iff.mp h₂
    obtain rfl := afterArrow?_eq_some_iff.mp h₃
    obtain ⟨blanks', hblanks', rfl, -⟩ := afterBlanks?_eq_some_iff.mp h₄
    obtain ⟨htarget, rfl, -⟩ := ident?_eq_some_iff.mp h₆
    obtain ⟨text, htext, rfl⟩ := (afterEdgeLabel?_eq_some_iff (head_of_isIdent htarget)).mp h₅
    exact ⟨hsource, htarget, blanks, blanks', text, [], hblanks, hblanks', htext, .inl rfl, rfl⟩
  · obtain ⟨source, dotted, target⟩ := e
    rintro ⟨hsource, htarget, blanks, blanks', text, stop, hblanks, hblanks', htext, hstop, rfl⟩
    obtain rfl : stop = [] := hstop.resolve_right fun he => hline (by simp [he])
    have h₁ (r : List Char) : ident? (source ++ (blanks ++ r)) = some (source, blanks ++ r) :=
      ident?_eq_some_iff.mpr ⟨hsource, rfl, head_of_isBlanks hblanks⟩
    have h₂ (r : List Char) : afterBlanks? (blanks ++ (arrowText dotted ++ r)) =
        some (arrowText dotted ++ r) :=
      afterBlanks?_eq_some_iff.mpr ⟨blanks, hblanks, rfl, head_of_arrowText dotted⟩
    have h₃ (r : List Char) : afterArrow? (arrowText dotted ++ r) = some (dotted, r) :=
      afterArrow?_eq_some_iff.mpr rfl
    have h₄ : afterBlanks? (blanks' ++ (text ++ (target ++ []))) = some (text ++ (target ++ [])) :=
      afterBlanks?_eq_some_iff.mpr ⟨blanks', hblanks', rfl, head_of_edgeLabel htext htarget⟩
    have h₅ : afterEdgeLabel? (text ++ (target ++ [])) = some (target ++ []) :=
      (afterEdgeLabel?_eq_some_iff (head_of_isIdent htarget)).mpr ⟨text, htext, rfl⟩
    have h₆ : ident? (target ++ []) = some (target, []) :=
      ident?_eq_some_iff.mpr ⟨htarget, rfl, by simp⟩
    simp only [readEdge?, Option.bind_eq_bind, h₁, h₂, h₃, h₄, h₅, h₆, Option.bind_some]
    rfl

/-- The lines of a rendered diagram: the header, a line for each box, a line for each edge. -/
theorem lines_render_eq {d : Diagram} (h : d.WellNamed) :
    Text.lines (render d).toList = header.toList ::
      (d.nodes.map (fun n => (nodeLine n).toList) ++
        d.edges.map fun e => (edgeLine e).toList) := by
  have hlines : (lines d).map String.toList = header.toList ::
      (d.nodes.map (fun n => (nodeLine n).toList) ++
        d.edges.map fun e => (edgeLine e).toList) := by
    rw [lines, List.cons_append, List.map_cons, List.map_append, List.map_map, List.map_map]
    rfl
  rw [← hlines, toList_render]
  apply Text.lines_joined_lineFeeds
  intro l hl
  obtain ⟨l, hmem, rfl⟩ := List.mem_map.mp hl
  exact (isLine_of_mem_lines h hmem).1.no_break

section

variable {n : RenderNode} (hid : isIdent n.id.toList)

include hid

theorem matchesNode_nodeLine {id : List Char} {decision : Bool} :
    MatchesNode (nodeLine n).toList id decision ↔ id = n.id.toList ∧
      decision = decide (n.kind = .condition ∨ n.kind = .switch ∨ n.kind = .loop) := by
  have hkind : isDecision n.kind =
      decide (n.kind = .condition ∨ n.kind = .switch ∨ n.kind = .loop) := by
    simp [isDecision, Bool.or_assoc]
  rw [← readNode?_eq_some_iff, readNode?_nodeLine hid, hkind, Option.some_inj, Prod.mk.injEq,
    eq_comm, eq_comm (b := decision)]

theorem not_matchesEdge_nodeLine (e : EdgeLine) : ¬ MatchesEdge (nodeLine n).toList e := by
  have hbreak : '\n' ∉ (nodeLine n).toList := fun hc =>
    absurd (mem_nodeLine hid hc).1 (by decide)
  rw [← readEdge?_eq_some_iff hbreak, readEdge?_nodeLine hid]
  exact nofun

end

theorem matchesEdge_edgeLine {e : Edge} (hs : isIdent e.source.toList)
    (ht : isIdent e.target.toList) {e' : EdgeLine} : MatchesEdge (edgeLine e).toList e' ↔
      e' = ⟨e.source.toList, decide (e.cls = .exceptionPath), e.target.toList⟩ := by
  have hbreak : '\n' ∉ (edgeLine e).toList := fun hc =>
    absurd (mem_edgeLine hs ht hc).1 (by decide)
  rw [← readEdge?_eq_some_iff hbreak, readEdge?_edgeLine hs ht, Option.some_inj, eq_comm]

theorem not_matchesEdge_header (e : EdgeLine) : ¬ MatchesEdge header.toList e := by
  rw [← readEdge?_eq_some_iff (by decide)]
  exact nofun

/-- A rendered diagram whose ids are identifiers can be read back, whatever its labels are: each
line after the first one matches the pattern of its box or its edge only, and tells what it was
written for. -/
theorem render_readBack {d : Diagram} (h : d.WellNamed) :
    ∃ boxes edges, Text.lines (render d).toList = header.toList :: (boxes ++ edges) ∧
      List.Forall₂ (fun n line =>
        (∀ id decision, MatchesNode line id decision ↔ id = n.id.toList ∧
          decision = decide (n.kind = .condition ∨ n.kind = .switch ∨ n.kind = .loop)) ∧
        ∀ e, ¬ MatchesEdge line e) d.nodes boxes ∧
      List.Forall₂ (fun e line => ∀ e', MatchesEdge line e' ↔
        e' = ⟨e.source.toList, decide (e.cls = .exceptionPath), e.target.toList⟩)
        d.edges edges := by
  refine ⟨_, _, lines_render_eq h, ?_, ?_⟩
  · rw [List.forall₂_map_right_iff, List.forall₂_same]
    intro n hn
    have hid := h.boxes n hn
    exact ⟨fun _ _ => matchesNode_nodeLine hid, not_matchesEdge_nodeLine hid⟩
  · rw [List.forall₂_map_right_iff, List.forall₂_same]
    intro e he e'
    obtain ⟨hs, ht⟩ := h.ends e he
    exact matchesEdge_edgeLine hs ht

/-- A condition and a handler with labels that look like lines of their own. -/
def forgedLines : Diagram where
  nodes := [
    { (default : RenderNode) with id := "a", kind := .condition, fullLabel := "x\nb --> a" },
    { (default : RenderNode) with id := "b", kind := .catchClause, fullLabel := "y]\rc[z" }]
  edges := [⟨"a", "b", .exceptionPath, some "|\na --> a"⟩]

theorem render_readBack_forgedLines :
    forgedLines.WellNamed ∧
    (Text.lines (render forgedLines).toList).map String.ofList = ["flowchart TD",
      "a\x7b\x7bx b --#62; a\x7d\x7d", "b[y#93; c#91;z]", "a -.-> |#124; a --#62; a| b"] ∧
    ∃ boxes edges, Text.lines (render forgedLines).toList = header.toList :: (boxes ++ edges) ∧
      List.Forall₂ (fun n line =>
        (∀ id decision, MatchesNode line id decision ↔ id = n.id.toList ∧
          decision = decide (n.kind = .condition ∨ n.kind = .switch ∨ n.kind = .loop)) ∧
        ∀ e, ¬ MatchesEdge line e) forgedLines.nodes boxes ∧
      List.Forall₂ (fun e line => ∀ e', MatchesEdge line e' ↔
        e' = ⟨e.source.toList, decide (e.cls = .exceptionPath), e.target.toList⟩)
        forgedLines.edges edges := by
  have h : forgedLines.WellNamed := ⟨by decide, by decide⟩
  exact ⟨h, by decide +kernel, render_readBack h⟩

/-- When all edges join boxes, a line of an edge stands behind the lines of its two ends. -/
theorem exists_matchesNode_of_matchesEdge {d : Diagram} (h : d.WellNamed)
    (hends : ∀ e ∈ d.edges, e.source ∈ d.nodes.map (·.id) ∧ e.target ∈ d.nodes.map (·.id))
    {before after : List (List Char)} {line : List Char} {e : EdgeLine}
    (hsplit : Text.lines (render d).toList = before ++ line :: after) (he : MatchesEdge line e) :
    ∀ id ∈ [e.source, e.target], ∃ l ∈ before, ∃ decision, MatchesNode l id decision := by
  let front := header.toList :: d.nodes.map fun n => (nodeLine n).toList
  have hfront : ∀ l ∈ front, ¬ MatchesEdge l e := by
    refine List.forall_mem_cons.mpr ⟨not_matchesEdge_header e, List.forall_mem_map.mpr ?_⟩
    exact fun n hn => not_matchesEdge_nodeLine (h.boxes n hn) e
  obtain ⟨hline, hbefore⟩ : line ∈ (d.edges.map fun e => (edgeLine e).toList) ∧
      ∀ l ∈ front, l ∈ before := by
    rw [lines_render_eq h, ← List.cons_append] at hsplit
    rcases List.append_eq_append_iff.mp hsplit with ⟨mid, rfl, hedges⟩ | ⟨mid, hmid, hedges⟩
    · rw [hedges]
      exact ⟨List.mem_append_right mid List.mem_cons_self, fun l => List.mem_append_left mid⟩
    · cases mid with
      | nil =>
        rw [List.append_nil] at hmid
        rw [← List.nil_append (d.edges.map _), ← hedges]
        exact ⟨List.mem_cons_self, fun l hl => hmid ▸ hl⟩
      | cons l mid =>
        obtain ⟨rfl, -⟩ := List.cons.inj hedges
        refine absurd he (hfront line ?_)
        rw [show front = _ from hmid]
        exact List.mem_append_right before List.mem_cons_self
  obtain ⟨e', he', rfl⟩ := List.mem_map.mp hline
  obtain ⟨hs, ht⟩ := h.ends e' he'
  obtain rfl := (matchesEdge_edgeLine hs ht).mp he
  have hbox {id : String} (hid : id ∈ d.nodes.map (·.id)) :
      ∃ l ∈ before, ∃ decision, MatchesNode l id.toList decision := by
    obtain ⟨n, hn, rfl⟩ := List.mem_map.mp hid
    exact ⟨_, hbefore _ (List.mem_cons_of_mem _ (List.mem_map_of_mem hn)), _,
      (matchesNode_nodeLine (h.boxes n hn)).mpr ⟨rfl, rfl⟩⟩
  intro id hid
  rcases List.mem_pair.mp hid with rfl | rfl
  · exact hbox (hends e' he').1
  · exact hbox (hends e' he').2

end Mermaid

/-- The Mermaid text of a script is accepted in either view, whatever its tree and its characters.
Every edge joins two boxes, and all boxes are declared before the edges: in the text, a line of an
edge stands behind a line for each of its ends. -/
theorem check_render_view (v : View) (src : Source) (t : Tree) :
    let d := Diagram.ofNodes (v.apply (extract src t))
    Mermaid.check (Mermaid.render d) = .ok () ∧
      (∀ e ∈ d.edges, e.source ∈ d.nodes.map (·.id) ∧ e.target ∈ d.nodes.map (·.id)) ∧
      ∀ before line after e,
        Text.lines (Mermaid.render d).toList = before ++ line :: after →
        Mermaid.MatchesEdge line e →
        ∀ id ∈ [e.source, e.target], ∃ l ∈ before, ∃ decision,
          Mermaid.MatchesNode l id decision := by
  have h := isFlow_view v src t
  have hends := Diagram.ends_mem_ofNodes h
  have hnamed := Diagram.wellNamed_ofNodes h
  refine ⟨?_, hends, fun before line after e hsplit =>
    Mermaid.exists_matchesNode_of_matchesEdge hnamed hends hsplit⟩
  rw [Mermaid.check_render hnamed, Diagram.undeclared?_eq_none_iff.mpr hends]
  rfl

end Flowchart
