import Flowchart.Proofs.Diagram.RowExtent
import Flowchart.Proofs.Flow.FirstNodes

/-! Nodes that are added at the end of a flow leave the places of the nodes before them as they
are. -/
namespace Flowchart
namespace Layout
open FlowNode
variable {front rest : List FlowNode}

theorem columnsBelow_of_whole (h : IsFlow (front ++ rest)) {s : FlowNode}
    (hs : Whole front rest s) : columnsBelow front s = columnsBelow (front ++ rest) s := by
  rw [columnsBelow, columnsBelow, hs.childrenOf_eq h]
  refine if_congr Iff.rfl (List.map_congr_left fun arm ha => ?_) rfl
  obtain ⟨han, hap⟩ := h.mem_childrenOf.mp ha
  rw [(hs.below (.single ⟨arm, han, rfl, hap⟩)).childrenOf_eq h]

/-- The rows of a node are settled once all below it is there. -/
theorem rowsOf_of_whole (h : IsFlow (front ++ rest)) {s : FlowNode} (hsf : s ∈ front)
    (hs : Whole front rest s) : rowsOf front s = rowsOf (front ++ rest) s := by
  induction hroom : room (front ++ rest) s using Nat.strongRecOn generalizing s with
  | ind k ih =>
    subst hroom
    have hsn : s ∈ front ++ rest := List.mem_append_left _ hsf
    rw [rowsOf_eq h.of_append hsf, rowsOf_eq h hsn, columnsBelow_of_whole h hs]
    refine congrArg (fun l => 1 + l.foldr max 0) (List.map_congr_left fun c hc => ?_)
    refine congrArg List.sum (List.map_congr_left fun m hm => ?_)
    obtain ⟨hmn, hlt, -⟩ := mem_of_column h hsn hc hm
    have ha := RightBelow.ancestor h hsn ⟨c, hc, hm⟩
    exact ih _ (room_lt h hsn hmn hlt) (hs m hmn ha) (hs.below ha) rfl

/-- Each column of the first nodes begins a column of the whole flow. -/
theorem column_of_front (h : IsFlow (front ++ rest)) {n : FlowNode} (hn : n ∈ front) {shift : Int}
    {column : List FlowNode} (hc : (shift, column) ∈ columnsBelow front n) :
    ∃ q ∈ front, column = childrenOf front q.id ∧
      (shift, column ++ childrenOf rest q.id) ∈ columnsBelow (front ++ rest) n := by
  rcases mem_columnsBelow.mp hc with ⟨hk, arm, ha, rfl, rfl⟩ | ⟨hk, rfl, rfl⟩
  · refine ⟨arm, (h.of_append.mem_childrenOf.mp ha).1, rfl, mem_columnsBelow.mpr (.inl ?_)⟩
    refine ⟨hk, arm, ?_, rfl, (FlowTree.childrenOf_append ..).symm⟩
    rw [FlowTree.childrenOf_append]
    exact List.mem_append_left _ ha
  · exact ⟨n, hn, rfl,
      mem_columnsBelow.mpr (.inr ⟨hk, rfl, (FlowTree.childrenOf_append ..).symm⟩)⟩

/-- A node stands where it stood before the rest was added. -/
theorem Stands.append (h : IsFlow (front ++ rest)) (hdf : DepthFirst (front ++ rest))
    {n : FlowNode} {p : Position} (hs : Stands front n p) : Stands (front ++ rest) n p := by
  have hf := h.of_append
  have hrows {s m : FlowNode} (hsf : s ∈ front) (hm : m ∈ front) (hlt : Precedes s m)
      (hna : ¬ Ancestor (front ++ rest) s.id m.id) :
      rowsOf front s = rowsOf (front ++ rest) s :=
    rowsOf_of_whole h hsf (whole_of_precedes h hdf (List.mem_append_left _ hsf) hm hlt hna)
  induction hs with
  | @root before after r he =>
    have hr := isDrawn_of_root hf (show r ∈ rootNodes front by rw [he]; simp)
    have hlt : ∀ s ∈ before, s ∈ front ∧ Precedes s r := by
      intro s hs
      have hord := hf.ordered.filter (·.parent = none)
      rw [show front.filter (·.parent = none) = before ++ r :: after from he] at hord
      refine ⟨(isDrawn_of_root hf (show s ∈ rootNodes front by rw [he]; simp [hs])).1, ?_⟩
      exact (List.pairwise_append.mp hord).2.2 s hs r (List.mem_cons_self ..)
    have hroot : r.parent = none := by
      simpa using (List.mem_filter.mp (show r ∈ rootNodes front by rw [he]; simp)).2
    have hsum : before.map (fun s => rowHeight * (rowsOf front s : Int) + gap) =
        before.map fun s => rowHeight * (rowsOf (front ++ rest) s : Int) + gap := by
      refine List.map_congr_left fun s hs => ?_
      have hna := h.not_ancestor_root (a := s.id) (List.mem_append_left _ hr.1) hroot
      rw [hrows (hlt s hs).1 hr.1 (hlt s hs).2 hna]
    have he' : rootNodes (front ++ rest) = before ++ r :: (after ++ rootNodes rest) := by
      rw [rootNodes, List.filter_append]
      exact (congrArg (· ++ rootNodes rest) he).trans (by simp)
    rw [hsum]
    exact .root he'
  | @column n m p shift before after hn hd _ hc ih =>
    obtain ⟨q, hq, hcol, hc'⟩ := column_of_front h hn hc
    have hmem : ∀ k ∈ before ++ m :: after, k ∈ front ∧ k ∈ childrenOf (front ++ rest) q.id := by
      intro k hk
      rw [hcol] at hk
      refine ⟨(hf.mem_childrenOf.mp hk).1, ?_⟩
      rw [FlowTree.childrenOf_append]
      exact List.mem_append_left _ hk
    have hsum : before.map (rowsOf front) = before.map (rowsOf (front ++ rest)) := by
      refine List.map_congr_left fun s hs => ?_
      obtain ⟨hsf, hsq⟩ := hmem s (by simp [hs])
      obtain ⟨hmf, hmq⟩ := hmem m (by simp)
      have hord := hf.children_ordered q.id
      rw [← hcol] at hord
      have hlt := (List.pairwise_append.mp hord).2.2 s hs m (List.mem_cons_self ..)
      exact hrows hsf hmf hlt (h.not_ancestor_sibling (List.mem_append_left _ hq) hsq hmq)
    rw [hsum]
    rw [List.append_assoc, List.cons_append] at hc'
    exact .column (List.mem_append_left _ hn) hd ih hc'

theorem position?_front (h : IsFlow (front ++ rest)) (hdf : DepthFirst (front ++ rest))
    {n : FlowNode} (hn : n ∈ front) (hd : n.isDrawn) :
    position? front n.id = position? (front ++ rest) n.id := by
  obtain ⟨p, hp⟩ := exists_stands h.of_append n hn hd
  rw [(position?_eq_some_iff h.of_append).mpr ⟨n, rfl, hp⟩,
    (position?_eq_some_iff h).mpr ⟨n, rfl, hp.append h hdf⟩]

end Layout
end Flowchart
