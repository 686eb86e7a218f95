import Flowchart.Proofs.Diagram.Leads
import Flowchart.Proofs.Mermaid.Line

/-! The check of a rendered diagram finds nothing but edges whose ends are no boxes, and in the
diagram of a script it finds nothing at all. -/
namespace Flowchart

namespace Diagram

/-- The ids of boxes and the ends of edges are identifiers. -/
structure WellNamed (d : Diagram) : Prop where
  boxes : ∀ n ∈ d.nodes, Mermaid.isIdent n.id.toList
  ends : ∀ e ∈ d.edges, Mermaid.isIdent e.source.toList ∧ Mermaid.isIdent e.target.toList

/-- The first end of an edge that is the id of no box. -/
def undeclared? (d : Diagram) : Option String :=
  (d.edges.flatMap fun e => [e.source, e.target]).find? fun id => !d.nodes.any (·.id = id)

theorem undeclared?_eq_none_iff {d : Diagram} : d.undeclared? = none ↔
    ∀ e ∈ d.edges, e.source ∈ d.nodes.map (·.id) ∧ e.target ∈ d.nodes.map (·.id) := by
  simp only [undeclared?, List.find?_eq_none, List.mem_flatMap, forall_exists_index, and_imp]
  constructor
  · intro h e he
    have hs := h e.source e he (List.mem_cons_self ..)
    have ht := h e.target e he (List.mem_cons_of_mem _ (List.mem_singleton_self _))
    exact ⟨by simpa using hs, by simpa using ht⟩
  · rintro h id e he hid
    obtain ⟨hs, ht⟩ := h e he
    rcases List.mem_pair.mp hid with rfl | rfl
    · simpa using hs
    · simpa using ht

end Diagram

namespace Mermaid

theorem isLine_header : Text.IsLine header.toList := by
  constructor
  · simp [header, Text.isLineBreak]
  · simp [header]
  · simp [header, Text.isBlank]
  · simp [header, Text.isBlank]

theorem isLine_of_mem_lines {d : Diagram} (h : d.WellNamed) {l : String} (hl : l ∈ lines d) :
    Text.IsLine l.toList ∧ '&' ∉ l.toList := by
  simp only [lines, List.mem_cons, List.mem_append, List.mem_map] at hl
  rcases hl with (rfl | ⟨n, hn, rfl⟩) | ⟨e, he, rfl⟩
  · exact ⟨isLine_header, by decide⟩
  · have hn := h.boxes n hn
    exact ⟨isLine_nodeLine hn, fun hc => (mem_nodeLine hn hc).2.1 rfl⟩
  · obtain ⟨hs, ht⟩ := h.ends e he
    exact ⟨isLine_edgeLine hs ht, fun hc => (mem_edgeLine hs ht hc).2 rfl⟩

theorem toList_render (d : Diagram) :
    (render d).toList = ((lines d).map String.toList).flatMap (· ++ ['\n']) := by
  simp [render, String.toList_join, List.flatMap_map]

theorem lines_render {d : Diagram} (h : d.WellNamed) :
    Text.lines (Text.trim (render d).toList) = (lines d).map String.toList := by
  rw [toList_render]
  apply Text.lines_trim_joined
  intro l hl
  obtain ⟨l, hmem, rfl⟩ := List.mem_map.mp hl
  exact (isLine_of_mem_lines h hmem).1

theorem ampersand_not_mem_render {d : Diagram} (h : d.WellNamed) : '&' ∉ (render d).toList := by
  intro hc
  rw [toList_render, List.mem_flatMap] at hc
  obtain ⟨l, hl, hc⟩ := hc
  obtain ⟨l, hmem, rfl⟩ := List.mem_map.mp hl
  rcases List.mem_append.mp hc with hc | hc
  · exact (isLine_of_mem_lines h hmem).2 hc
  · exact absurd hc (by decide)

theorem checkLines_boxes {ns : List RenderNode} (h : ∀ n ∈ ns, isIdent n.id.toList)
    (declared rest : List (List Char)) :
    checkLines declared (ns.map (fun n => (nodeLine n).toList) ++ rest) =
      checkLines ((ns.map (·.id.toList)).reverse ++ declared) rest := by
  induction ns generalizing declared with
  | nil => rfl
  | cons n ns ih =>
    have hn := h n (List.mem_cons_self ..)
    rw [List.map_cons, List.cons_append, checkLines, arrows_nodeLine hn]
    simp only [readEdge?_nodeLine hn, readNode?_nodeLine hn]
    rw [if_neg (by decide), ih fun m hm => h m (List.mem_cons_of_mem n hm)]
    simp

theorem checkLines_edges {es : List Edge}
    (h : ∀ e ∈ es, isIdent e.source.toList ∧ isIdent e.target.toList)
    {declared : List (List Char)} {known : String → Bool}
    (hd : ∀ id, declared.contains id.toList = known id) :
    checkLines declared (es.map fun e => (edgeLine e).toList) =
      ((es.flatMap fun e => [e.source, e.target]).find? (!known ·)).elim (.ok ())
        fun id => .error (.undeclared id.toList) := by
  induction es with
  | nil => rfl
  | cons e es ih =>
    obtain ⟨hs, ht⟩ := h e (List.mem_cons_self ..)
    rw [List.map_cons, checkLines, arrows_edgeLine hs ht, if_neg (by decide)]
    simp only [readEdge?_edgeLine hs ht, hd, ih fun e' he => h e' (List.mem_cons_of_mem e he)]
    rw [List.flatMap_cons, List.cons_append, List.singleton_append]
    cases hks : known e.source with
    | false => simp [hks]
    | true =>
      cases hkt : known e.target with
      | false => simp [hks, hkt]
      | true => simp [hks, hkt]

/-- A rendered diagram is accepted, or the first end of an edge that is no box is reported. -/
theorem check_render {d : Diagram} (h : d.WellNamed) :
    check (render d) = d.undeclared?.elim (.ok ()) fun id => .error (.undeclared id.toList) := by
  have hlines : Text.lines (Text.trim (render d).toList) = header.toList ::
      (d.nodes.map (fun n => (nodeLine n).toList) ++
        d.edges.map fun e => (edgeLine e).toList) := by
    rw [lines_render h, lines, List.cons_append, List.map_cons, List.map_append, List.map_map,
      List.map_map]
    rfl
  have hentity : occurrences "&#".toList (render d).toList = 0 :=
    occurrences_eq_zero (by decide) (ampersand_not_mem_render h)
  have hknown (id : String) :
      ((d.nodes.map fun n : RenderNode => n.id.toList).reverse ++ []).contains id.toList =
        d.nodes.any (·.id = id) := by
    rw [Bool.eq_iff_iff, List.contains_iff_mem]
    simp [String.toList_inj]
  rw [check, hlines]
  simp only [hentity]
  rw [if_neg (by decide), if_neg (by decide), checkLines_boxes h.boxes,
    checkLines_edges h.ends hknown, Diagram.undeclared?]

/-- A rendered diagram whose ids are identifiers is accepted, whatever its labels are, just when the
edges join boxes. Otherwise the first end that is no box is reported, of an edge the source before
the target. -/
theorem check_render_ends {d : Diagram} (h : d.WellNamed) :
    let boxes := d.nodes.map (·.id)
    (check (render d) = .ok () ↔ ∀ e ∈ d.edges, e.source ∈ boxes ∧ e.target ∈ boxes) ∧
      ∀ problem, check (render d) = .error problem ↔
        ∃ before id after, (d.edges.flatMap fun e => [e.source, e.target]) = before ++ id :: after ∧
          (∀ x ∈ before, x ∈ boxes) ∧ id ∉ boxes ∧ problem = .undeclared id.toList ∧
          problem.message = "Edge references undeclared node " ++ id := by
  intro boxes
  have hboxes (id : String) : (!d.nodes.any (·.id = id)) = true ↔ id ∉ boxes := by
    simp [boxes]
  have hmessage (id : String) : (Problem.undeclared id.toList).message =
      "Edge references undeclared node " ++ id :=
    congrArg ("Edge references undeclared node " ++ ·) String.ofList_toList
  -- The first end without a box is where the ends split.
  have hfirst (id : String) : d.undeclared? = some id ↔ id ∉ boxes ∧ ∃ before after,
      (d.edges.flatMap fun e => [e.source, e.target]) = before ++ id :: after ∧
        ∀ x ∈ before, x ∈ boxes := by
    rw [Diagram.undeclared?, List.find?_eq_some_iff_append, hboxes]
    simp [boxes]
  refine ⟨?_, fun problem => ?_⟩
  · rw [check_render h, ← Diagram.undeclared?_eq_none_iff]
    cases d.undeclared? <;> simp
  · rw [check_render h]
    constructor
    · intro hcheck
      cases hid : d.undeclared? with
      | none =>
        rw [hid] at hcheck
        cases hcheck
      | some id =>
        rw [hid] at hcheck
        cases hcheck
        obtain ⟨hout, before, after, hends, hbefore⟩ := (hfirst id).mp hid
        exact ⟨before, id, after, hends, hbefore, hout, rfl, hmessage id⟩
    · rintro ⟨before, id, after, hends, hbefore, hout, rfl, -⟩
      rw [(hfirst id).mpr ⟨hout, before, after, hends, hbefore⟩]
      rfl

/-- An edge to a box and two edges of which one end is none. The labels look like boxes, arrows and
codes. -/
def looseEnds : Diagram where
  nodes := [{ (default : RenderNode) with id := "a", kind := .condition, fullLabel := "x\nb[y]&#" }]
  edges := [⟨"a", "a", .onTrue, some "| b\r--> b"⟩, ⟨"a", "b", .exceptionPath, none⟩,
    ⟨"c", "a", .sequential, none⟩]

theorem check_render_ends_looseEnds :
    let boxes := looseEnds.nodes.map (·.id)
    looseEnds.WellNamed ∧ check (render looseEnds) = .error (.undeclared ['b']) ∧
    (check (render looseEnds) = .ok () ↔
      ∀ e ∈ looseEnds.edges, e.source ∈ boxes ∧ e.target ∈ boxes) ∧
    ∀ problem, check (render looseEnds) = .error problem ↔
      ∃ before id after,
        (looseEnds.edges.flatMap fun e => [e.source, e.target]) = before ++ id :: after ∧
        (∀ x ∈ before, x ∈ boxes) ∧ id ∉ boxes ∧ problem = .undeclared id.toList ∧
        problem.message = "Edge references undeclared node " ++ id := by
  have h : looseEnds.WellNamed := ⟨by decide, by decide⟩
  exact ⟨h, by decide +kernel, check_render_ends h⟩

theorem isIdent_nodeId (k : Nat) : isIdent (nodeId k).toList := by
  have hdigits : ∀ c ∈ Nat.toDigits 10 k, isIdentChar c := by
    intro c hc
    have hd := Nat.isDigit_of_mem_toDigits (by decide) (by decide) hc
    simp [isIdentChar, Char.isAlphanum, hd]
  have hword : "node_".toList = 'n' :: "ode_".toList := rfl
  have hode : "ode_".toList.all isIdentChar := by decide
  rw [toList_nodeId, hword, List.cons_append, isIdent, List.all_append, hode,
    List.all_eq_true.mpr hdigits]
  rfl

end Mermaid

namespace Diagram
variable {nodes : List FlowNode}

theorem mem_ofNodes {n : FlowNode} (hn : n ∈ nodes) (hd : n.isDrawn) :
    n.id ∈ (ofNodes nodes).nodes.map (·.id) := by
  rw [ofNodes, List.map_map]
  exact List.mem_map.mpr ⟨n, List.mem_filter.mpr ⟨hn, hd⟩, rfl⟩

/-- The edges of a flow join boxes. -/
theorem ends_mem_ofNodes (h : FlowNode.IsFlow nodes) : ∀ e ∈ (ofNodes nodes).edges,
    e.source ∈ (ofNodes nodes).nodes.map (·.id) ∧ e.target ∈ (ofNodes nodes).nodes.map (·.id) := by
  intro e he
  obtain ⟨m, n, hl, hs, ht⟩ := h.mem_edges_iff.mp he
  obtain ⟨hm, hn, -⟩ := hl.ends h
  obtain ⟨hmd, hnd⟩ := hl.drawn h
  rw [hs, ht]
  exact ⟨mem_ofNodes hm hmd, mem_ofNodes hn hnd⟩

theorem wellNamed_ofNodes (h : FlowNode.IsFlow nodes) : (ofNodes nodes).WellNamed := by
  have hbox : ∀ id ∈ (ofNodes nodes).nodes.map (·.id), Mermaid.isIdent id.toList := by
    intro id hid
    rw [ofNodes, List.map_map] at hid
    obtain ⟨n, hn, rfl⟩ := List.mem_map.mp hid
    obtain ⟨k, hk⟩ := h.numbered n (List.mem_filter.mp hn).1
    change Mermaid.isIdent n.id.toList
    rw [hk]
    exact Mermaid.isIdent_nodeId k
  constructor
  · exact fun n hn => hbox n.id (List.mem_map_of_mem hn)
  · intro e he
    obtain ⟨hs, ht⟩ := ends_mem_ofNodes h e he
    exact ⟨hbox _ hs, hbox _ ht⟩

end Diagram

end Flowchart
