import Flowchart.Proofs.Diagram.FirstPlaces

/-! The diagram of the first nodes of a flow is a part of the diagram of the whole flow: the same
boxes at the same places, and the edges between them in the same order. -/
namespace Flowchart

/-- Both ends of an edge are among the ids. -/
def Edge.isWithin (ids : List String) (e : Edge) : Bool :=
  e.source ∈ ids && e.target ∈ ids

/-- What a diagram shows of the nodes with the given ids. -/
def Diagram.restrict (d : Diagram) (ids : List String) : Diagram where
  nodes := d.nodes.filter (·.id ∈ ids)
  edges := d.edges.filter (·.isWithin ids)

/-- Where a key stands for a single edge, edges can be dropped before or after repetitions are. -/
theorem Edge.filter_distinct (keep : Edge → Bool) {es : List Edge}
    (h : ∀ a ∈ es, ∀ b ∈ es, a.key = b.key → a = b) :
    (distinct es).filter keep = distinct (es.filter keep) := by
  induction es with
  | nil => rfl
  | cons e es ih =>
    have htail : ∀ a ∈ es, ∀ b ∈ es, a.key = b.key → a = b :=
      fun a ha b hb => h a (List.mem_cons_of_mem _ ha) b (List.mem_cons_of_mem _ hb)
    cases hk : keep e with
    | true =>
      rw [List.filter_cons_of_pos hk, distinct, distinct, List.filter_cons_of_pos hk,
        List.filter_comm, ih htail]
    | false =>
      have hk : ¬ keep e = true := by simp [hk]
      rw [List.filter_cons_of_neg hk, distinct, List.filter_cons_of_neg hk, List.filter_comm,
        ih htail, List.filter_eq_self]
      intro x hx
      have hfilter : ∀ a ∈ es.filter keep, ∀ b ∈ es.filter keep, a.key = b.key → a = b :=
        fun a ha b hb => htail a (List.mem_filter.mp ha).1 b (List.mem_filter.mp hb).1
      obtain ⟨hx, hkx⟩ := List.mem_filter.mp ((mem_distinct_iff hfilter).mp hx)
      rw [decide_eq_true_iff]
      intro he
      rw [h x (List.mem_cons_of_mem _ hx) e (List.mem_cons_self ..) he] at hkx
      exact hk hkx

namespace FlowNode
variable {front rest : List FlowNode}

/-- The ids of the first nodes. -/
private abbrev ids (front : List FlowNode) : List String :=
  front.map (·.id)

private theorem id_not_mem (h : IsFlow (front ++ rest)) {n : FlowNode} (hn : n ∈ rest) :
    n.id ∉ ids front := by
  rw [h.id_mem_front_iff (List.mem_append_right _ hn)]
  exact fun hf => (h.precedes_rest hf hn).id_ne rfl

private theorem isWithin_of_front {m n : FlowNode} (hm : m ∈ front) (hn : n ∈ front)
    (c : EdgeClass) (l : Option String) : Edge.isWithin (ids front) ⟨m.id, n.id, c, l⟩ = true := by
  simp only [Edge.isWithin, List.mem_map_of_mem hm, List.mem_map_of_mem hn, decide_true,
    Bool.and_self]

private theorem isWithin_of_rest (h : IsFlow (front ++ rest)) {n : FlowNode} (hn : n ∈ rest)
    (s : String) (c : EdgeClass) (l : Option String) :
    Edge.isWithin (ids front) ⟨s, n.id, c, l⟩ = false := by
  simp only [Edge.isWithin, id_not_mem h hn, decide_false, Bool.and_false]

/-- One pass over the nodes, cut down to the first of them. -/
private theorem filter_filterMap_append {f g : FlowNode → Option Edge} {keep : Edge → Bool}
    (hfront : ∀ n ∈ front, (f n).filter keep = g n)
    (hrest : ∀ n ∈ rest, (f n).filter keep = none) :
    ((front ++ rest).filterMap f).filter keep = front.filterMap g := by
  rw [List.filter_filterMap, List.filterMap_append, List.filterMap_congr hfront,
    List.filterMap_eq_nil_iff.mpr hrest, List.append_nil]

theorem parent?_front (h : IsFlow (front ++ rest)) {n : FlowNode} (hn : n ∈ front) :
    parent? front n = parent? (front ++ rest) n := by
  have hnn : n ∈ front ++ rest := List.mem_append_left _ hn
  cases hp : n.parent with
  | none =>
    have hl : n.parentLink = none := by rw [h.parentLink_eq hnn, hp]
    rw [parent?, parent?, hl]
    rfl
  | some id =>
    obtain ⟨p, hpf, rfl, -⟩ := h.of_append.parent_mem n hn id hp
    rw [h.of_append.parent?_eq hpf (h.of_append.mem_childrenOf.mpr ⟨hn, hp⟩),
      h.parent?_eq (List.mem_append_left _ hpf) (h.mem_childrenOf.mpr ⟨hnn, hp⟩)]

private theorem armEdge_front (h : IsFlow (front ++ rest)) {p n : FlowNode} (hp : p ∈ front) :
    (armEdge (front ++ rest) p n).filter (·.isWithin (ids front)) = armEdge front p n := by
  rw [armEdge, armEdge, FlowTree.childrenOf_append]
  cases hc : childrenOf front n.id with
  | nil =>
    cases hc' : childrenOf rest n.id with
    | nil => rfl
    | cons x xs =>
      have hx : x ∈ rest := (List.mem_filter.mp (hc' ▸ List.mem_cons_self ..)).1
      have hw := isWithin_of_rest h hx p.id
      by_cases hb : n.branch = some .onTrue <;> simp [hb, hw]
  | cons x xs =>
    have hx : x ∈ front := (List.mem_filter.mp (hc ▸ List.mem_cons_self ..)).1
    have hw := isWithin_of_front hp hx
    by_cases hb : n.branch = some .onTrue <;> simp [hb, hw]

private theorem entryEdge_front (h : IsFlow (front ++ rest)) {n : FlowNode} (hn : n ∈ front) :
    (entryEdge (front ++ rest) n).filter (·.isWithin (ids front)) = entryEdge front n := by
  rw [entryEdge, entryEdge, parent?_front h hn]
  cases hp : parent? (front ++ rest) n with
  | none => rfl
  | some p =>
    obtain ⟨hpf, hc⟩ := h.of_append.of_parent?_eq hn ((parent?_front h hn).trans hp)
    rw [Option.bind_some, Option.bind_some]
    split_ifs with hb hpb
    · exact armEdge_front h hpf
    · rfl
    · -- The node itself is a drawn child, so the first drawn child is among the first nodes.
      have hdrawn : n ∈ (childrenOf front p.id).filter isDrawn :=
        List.mem_filter.mpr ⟨hc, by simpa [isDrawn] using hb⟩
      have hw := isWithin_of_front hpf hn
      rw [FlowTree.childrenOf_append, List.filter_append]
      cases hd : (childrenOf front p.id).filter isDrawn with
      | nil => simp [hd] at hdrawn
      | cons x xs =>
        by_cases hx : x.id = n.id <;> simp [hx, hw]

private theorem entryEdge_rest (h : IsFlow (front ++ rest)) {n : FlowNode} (hn : n ∈ rest) :
    (entryEdge (front ++ rest) n).filter (·.isWithin (ids front)) = none := by
  rw [Option.filter_eq_none_iff]
  intro e he
  obtain ⟨p, -, he⟩ := Option.bind_eq_some_iff.mp he
  split_ifs at he
  · obtain ⟨c, hc, rfl⟩ := Option.map_eq_some_iff.mp he
    obtain ⟨hcn, hcp⟩ := h.mem_childrenOf.mp (List.mem_of_head? hc)
    have hlt := h.precedes_of_parent (List.mem_append_right _ hn) hcn hcp
    have hcr : c ∈ rest := by
      rcases List.mem_append.mp hcn with hcf | hcr
      · exact absurd hlt (h.precedes_rest hcf hn).asymm
      · exact hcr
    have hw := isWithin_of_rest h hcr p.id
    split_ifs <;> simp [hw]
  · obtain ⟨-, he⟩ := Option.ite_none_right_eq_some.mp he
    obtain rfl := Option.some.inj he
    simp [isWithin_of_rest h hn]

private theorem handlerEdge_front (h : IsFlow (front ++ rest)) {n : FlowNode} (hn : n ∈ front) :
    (handlerEdge (front ++ rest) n).filter (·.isWithin (ids front)) = handlerEdge front n := by
  rw [handlerEdge, handlerEdge, parent?_front h hn]
  cases hp : parent? (front ++ rest) n with
  | none => rfl
  | some p =>
    obtain ⟨hpf, -⟩ := h.of_append.of_parent?_eq hn ((parent?_front h hn).trans hp)
    have hw := isWithin_of_front hpf hn
    by_cases hk : p.kind = .tryStmt
    · rw [Option.filter_some_pos (by simpa using hk), Option.bind_some]
      split <;> simp [hw]
    · rw [Option.filter_some_neg (by simpa using hk)]
      rfl

private theorem handlerEdge_rest (h : IsFlow (front ++ rest)) {n : FlowNode} (hn : n ∈ rest) :
    (handlerEdge (front ++ rest) n).filter (·.isWithin (ids front)) = none := by
  rw [Option.filter_eq_none_iff]
  intro e he
  obtain ⟨p, -, he⟩ := Option.bind_eq_some_iff.mp he
  have hw := isWithin_of_rest h hn p.id
  split at he
  · obtain rfl := Option.some.inj he
    simp [hw]
  · obtain rfl := Option.some.inj he
    simp [hw]
  · cases he

/-- Of the neighbours in a list, those in its first part. -/
private theorem filter_zip_tail {α : Type} {keep : α × α → Bool} {l r : List α}
    (hl : ∀ a ∈ l, ∀ b ∈ l, keep (a, b) = true) (hr : ∀ a, ∀ b ∈ r, keep (a, b) = false) :
    ((l ++ r).zip (l ++ r).tail).filter keep = l.zip l.tail := by
  have hnone (l' : List α) : (l'.zip r).filter keep = [] := by
    rw [List.filter_eq_nil_iff]
    rintro ⟨a, b⟩ hab
    simp [hr a b (List.of_mem_zip hab).2]
  induction l with
  | nil =>
    refine List.filter_eq_nil_iff.mpr ?_
    rintro ⟨a, b⟩ hab
    simp [hr a b (List.mem_of_mem_tail (List.of_mem_zip hab).2)]
  | cons x l ih =>
    cases l with
    | nil => simpa using hnone (x :: r)
    | cons y l =>
      have hxy : keep (x, y) = true := hl x (by simp) y (by simp)
      have ih := ih fun a ha b hb => hl a (List.mem_cons_of_mem _ ha) b (List.mem_cons_of_mem _ hb)
      simp only [List.cons_append, List.tail_cons, List.zip_cons_cons] at ih ⊢
      rw [List.filter_cons_of_pos hxy, ih]

private theorem chainEdges_append (h : IsFlow (front ++ rest)) {group group' : List FlowNode}
    (hg : group ⊆ front) (hg' : group' ⊆ rest) :
    (chainEdges (group ++ group')).filter (·.isWithin (ids front)) = chainEdges group := by
  let step (q : FlowNode × FlowNode) : Edge := ⟨q.1.id, q.2.id, .sequential, none⟩
  let drawn := (group ++ group').filter isDrawn
  have hpairs : (drawn.zip drawn.tail).filter (fun q => (step q).isWithin (ids front)) =
      (group.filter isDrawn).zip (group.filter isDrawn).tail := by
    rw [show drawn = group.filter isDrawn ++ group'.filter isDrawn from List.filter_append ..]
    refine filter_zip_tail (fun a ha b hb => ?_) fun a b hb => ?_
    · exact isWithin_of_front (hg (List.mem_filter.mp ha).1) (hg (List.mem_filter.mp hb).1) _ _
    · exact isWithin_of_rest h (hg' (List.mem_filter.mp hb).1) _ _ _
  rw [chainEdges, List.filter_map, List.filter_comm]
  exact congrArg (fun l => (l.filter (!·.1.kind.isTerminal)).map step) hpairs

private theorem chains_front (h : IsFlow (front ++ rest)) :
    ((parentIds (front ++ rest)).flatMap fun id =>
        chainEdges (childrenOf (front ++ rest) id)).filter (·.isWithin (ids front)) =
      (parentIds front).flatMap fun id => chainEdges (childrenOf front id) := by
  have hgroup (id : String) :
      (chainEdges (childrenOf (front ++ rest) id)).filter (·.isWithin (ids front)) =
        chainEdges (childrenOf front id) := by
    rw [FlowTree.childrenOf_append]
    exact chainEdges_append h List.filter_sublist.subset List.filter_sublist.subset
  have hlater : ∀ id, id ∉ front.filterMap parentLink → chainEdges (childrenOf front id) = [] := by
    intro id hid
    have hnil : childrenOf front id = [] := by
      rw [childrenOf, List.filter_eq_nil_iff]
      intro c hc hp
      exact hid (List.mem_filterMap.mpr ⟨c, hc, by simpa using hp⟩)
    rw [hnil]
    rfl
  rw [List.filter_flatMap, parentIds, List.filterMap_append, List.eraseDups_append,
    List.flatMap_append, parentIds]
  simp only [hgroup]
  rw [List.append_right_eq_self, List.flatMap_eq_nil_iff]
  intro id hid
  rw [List.mem_eraseDups, List.removeAll, List.mem_filter] at hid
  exact hlater id (by simpa using hid.2)

/-- The edges of the first nodes are those of the whole flow that join two of them. -/
theorem edges_front (h : IsFlow (front ++ rest)) :
    edges front = (edges (front ++ rest)).filter (·.isWithin (front.map (·.id))) := by
  have hcand : candidates front =
      (candidates (front ++ rest)).filter (·.isWithin (front.map (·.id))) := by
    rw [candidates, candidates, List.filter_append, List.filter_append, chains_front h,
      filter_filterMap_append (fun n hn => entryEdge_front h hn) fun n hn => entryEdge_rest h hn,
      filter_filterMap_append (fun n hn => handlerEdge_front h hn)
        fun n hn => handlerEdge_rest h hn]
  calc
    edges front = Edge.distinct (candidates front) := rfl
    _ = (Edge.distinct (candidates (front ++ rest))).filter _ := by
      rw [hcand, Edge.filter_distinct _ h.candidate_eq_of_key]
    _ = (edges (front ++ rest)).filter (·.isWithin (front.map (·.id))) := rfl

/-- The drawn nodes among the first ones. -/
private theorem drawn_front (h : IsFlow (front ++ rest)) :
    ((front ++ rest).filter isDrawn).filter (·.id ∈ ids front) = front.filter isDrawn := by
  have hfront : front.filter (·.id ∈ ids front) = front :=
    List.filter_eq_self.mpr fun n hn => decide_eq_true (List.mem_map_of_mem hn)
  have hrest : rest.filter (·.id ∈ ids front) = [] :=
    List.filter_eq_nil_iff.mpr fun n hn => by simpa using id_not_mem h hn
  rw [List.filter_comm, List.filter_append, hfront, hrest, List.append_nil]

end FlowNode

open FlowNode Layout

/-- Nodes that are added at the end add to a diagram, and change nothing of it. -/
theorem Diagram.ofNodes_front {front rest : List FlowNode} (h : IsFlow (front ++ rest))
    (hdf : DepthFirst (front ++ rest)) :
    Diagram.ofNodes front = (Diagram.ofNodes (front ++ rest)).restrict (front.map (·.id)) := by
  let box (nodes : List FlowNode) (n : FlowNode) : RenderNode :=
    n.render ((position? nodes n.id).getD ⟨0, 0⟩)
  have hboxes : (Diagram.ofNodes front).nodes =
      (Diagram.ofNodes (front ++ rest)).nodes.filter (·.id ∈ front.map (·.id)) := calc
    (Diagram.ofNodes front).nodes = (front.filter isDrawn).map (box front) := rfl
    _ = (front.filter isDrawn).map (box (front ++ rest)) := by
      refine List.map_congr_left fun n hn => ?_
      obtain ⟨hn, hd⟩ := List.mem_filter.mp hn
      exact congrArg (fun p => n.render (p.getD ⟨0, 0⟩)) (position?_front h hdf hn hd)
    _ = (((front ++ rest).filter isDrawn).map (box (front ++ rest))).filter
        (·.id ∈ front.map (·.id)) := by
      rw [← drawn_front h, List.filter_map]
      rfl
  exact congrArg₂ Diagram.mk hboxes (edges_front h)

/-- The diagram of the first `k` nodes of a view shows what the whole diagram shows of them. -/
theorem Diagram.ofNodes_take (v : View) (src : Source) (t : Tree) (k : Nat) :
    let nodes := v.apply (extract src t)
    Diagram.ofNodes (nodes.take k) =
      (Diagram.ofNodes nodes).restrict ((nodes.take k).map (·.id)) := by
  intro nodes
  have he : nodes = nodes.take k ++ nodes.drop k := (List.take_append_drop k nodes).symm
  have h : IsFlow nodes := isFlow_view v src t
  have hdf : DepthFirst nodes := depthFirst_view v src t
  rw [he] at h hdf
  exact (Diagram.ofNodes_front h hdf).trans (by rw [← he])

end Flowchart
