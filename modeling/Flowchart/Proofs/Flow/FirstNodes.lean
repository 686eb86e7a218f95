import Flowchart.Proofs.Diagram.Reachability
import Flowchart.Proofs.Flow.Preorder

/-! The first nodes of a flow are a flow of their own. In both views a node that comes after another
one without being below it comes after all that is below the other. -/
namespace Flowchart
namespace FlowNode
variable {nodes part front rest : List FlowNode}

/-- Between a node and a descendant of it stand descendants only. -/
def DepthFirst (nodes : List FlowNode) : Prop :=
  ∀ a ∈ nodes, ∀ n ∈ nodes, ∀ d ∈ nodes, Precedes a n → Precedes n d →
    Ancestor nodes a.id d.id → Ancestor nodes a.id n.id

theorem Forest.precedes_of_ancestor (h : Forest nodes) {a : FlowNode} (ha : a ∈ nodes) :
    ∀ d ∈ nodes, Ancestor nodes a.id d.id → Precedes a d := by
  refine h.induction fun d hd ih had => ?_
  cases hp : d.parent with
  | none => exact absurd had (h.not_ancestor_root hd hp)
  | some id =>
    obtain ⟨m, hm, rfl, hlt⟩ := h.parent_mem d hd id hp
    rcases (h.ancestor_iff hd hp).mp had with he | ham
    · exact h.eq_of_id ha hm he ▸ hlt
    · exact (ih m hm hlt ham).trans hlt

theorem Forest.not_ancestor_sibling (h : Forest nodes) {s m p : FlowNode} (hp : p ∈ nodes)
    (hs : s ∈ childrenOf nodes p.id) (hm : m ∈ childrenOf nodes p.id) :
    ¬ Ancestor nodes s.id m.id := by
  obtain ⟨hsn, hsp⟩ := h.mem_childrenOf.mp hs
  obtain ⟨hmn, hmp⟩ := h.mem_childrenOf.mp hm
  have hlt := h.precedes_of_parent hp hsn hsp
  intro ha
  rcases (h.ancestor_iff hmn hmp).mp ha with he | ha
  · exact hlt.id_ne he.symm
  · exact hlt.asymm (h.precedes_of_ancestor hsn p hp ha)

theorem ancestor_mono (hsub : part ⊆ nodes) {a d : String} (had : Ancestor part a d) :
    Ancestor nodes a d :=
  Relation.TransGen.mono (fun _ _ ⟨n, hn, hid, hp⟩ => ⟨n, hsub hn, hid, hp⟩) _ _ had

/-- A part of a flow has all ancestors of its nodes. -/
theorem IsPart.ancestor_iff (hpart : IsPart part nodes) (h : IsFlow nodes) {a : String} :
    ∀ d ∈ nodes, d ∈ part → (Ancestor part a d.id ↔ Ancestor nodes a d.id) := by
  have hf := hpart.isFlow h
  refine h.induction fun d hd ih hdp => ?_
  cases hp : d.parent with
  | none => exact iff_of_false (hf.not_ancestor_root hdp hp) (h.not_ancestor_root hd hp)
  | some id =>
    obtain ⟨m, hm, rfl, hlt⟩ := h.parent_mem d hd id hp
    rw [hf.ancestor_iff hdp hp, h.ancestor_iff hd hp,
      ih m hm hlt (hpart.parent_mem d hdp m hm hp)]

theorem IsPart.depthFirst (hpart : IsPart part nodes) (h : IsFlow nodes) (hd : DepthFirst nodes) :
    DepthFirst part := by
  intro a ha n hn d hdp han hnd had
  have hsub := hpart.sublist.subset
  rw [hpart.ancestor_iff h n (hsub hn) hn]
  exact hd a (hsub ha) n (hsub hn) d (hsub hdp) han hnd (ancestor_mono hsub had)

theorem Preorder.depthFirst (h : Preorder nodes) : DepthFirst nodes := by
  have hindex {n : FlowNode} {k : Nat} (hn : n ∈ nodes) (hid : n.id = nodeId k) :
      nodes[k]? = some n := by
    obtain ⟨i, hi⟩ := List.mem_iff_getElem?.mp hn
    obtain rfl : i = k := nodeId_inj.mp ((h.id_eq i n hi).symm.trans hid)
    exact hi
  rintro a ha n hn d hd ⟨i, k, hik, hai, hnk⟩ ⟨k', j, hkj, hnk', hdj⟩ had
  obtain rfl : k = k' := nodeId_inj.mp (hnk.symm.trans hnk')
  obtain ⟨stop, hstop⟩ := h.contiguous i a (hindex ha hai)
  have hj := ((hstop j d (hindex hd hdj)).mp had).2
  exact (hstop k n (hindex hn hnk)).mpr ⟨hik, hkj.trans hj⟩

/-! The first nodes of a flow and the rest of it. -/

theorem Forest.precedes_rest (h : Forest (front ++ rest)) {n m : FlowNode} (hn : n ∈ front)
    (hm : m ∈ rest) : Precedes n m :=
  (List.pairwise_append.mp h.ordered).2.2 n hn m hm

/-- What comes before one of the first nodes is one of them. -/
theorem Forest.mem_front (h : Forest (front ++ rest)) {m n : FlowNode} (hm : m ∈ front ++ rest)
    (hn : n ∈ front) (hlt : Precedes m n) : m ∈ front := by
  rcases List.mem_append.mp hm with hm | hm
  · exact hm
  · exact absurd hlt (h.precedes_rest hn hm).asymm

theorem Forest.isPart_front (h : Forest (front ++ rest)) : IsPart front (front ++ rest) where
  sublist := List.sublist_append_left ..
  parent_mem _ hn _ hm hp :=
    h.mem_front hm hn (h.precedes_of_parent hm (List.mem_append_left _ hn) hp)

theorem IsFlow.of_append (h : IsFlow (front ++ rest)) : IsFlow front :=
  h.isPart_front.isFlow h

/-- One of the first nodes is told by its id. -/
theorem Forest.id_mem_front_iff (h : Forest (front ++ rest)) {n : FlowNode}
    (hn : n ∈ front ++ rest) : n.id ∈ front.map (·.id) ↔ n ∈ front := by
  constructor
  · intro hid
    obtain ⟨m, hm, hid⟩ := List.mem_map.mp hid
    exact h.eq_of_id (List.mem_append_left _ hm) hn hid ▸ hm
  · exact List.mem_map_of_mem

/-- All that is below a node is among the first nodes. -/
def Whole (front rest : List FlowNode) (s : FlowNode) : Prop :=
  ∀ d ∈ front ++ rest, Ancestor (front ++ rest) s.id d.id → d ∈ front

/-- All below a node comes before the next node that is not below it. -/
theorem whole_of_precedes (h : IsFlow (front ++ rest)) (hdf : DepthFirst (front ++ rest))
    {s n : FlowNode} (hs : s ∈ front ++ rest) (hn : n ∈ front) (hlt : Precedes s n)
    (hna : ¬ Ancestor (front ++ rest) s.id n.id) : Whole front rest s := by
  intro d hd had
  rcases List.mem_append.mp hd with hdf' | hdr
  · exact hdf'
  · exact absurd (hdf s hs n (List.mem_append_left _ hn) d hd hlt (h.precedes_rest hn hdr) had) hna

theorem Whole.childrenOf_eq (h : IsFlow (front ++ rest)) {s : FlowNode}
    (hs : Whole front rest s) : childrenOf front s.id = childrenOf (front ++ rest) s.id := by
  rw [FlowTree.childrenOf_append, List.self_eq_append_right, childrenOf, List.filter_eq_nil_iff]
  intro c hc hp
  have hcn : c ∈ front ++ rest := List.mem_append_right _ hc
  have hp : c.parent = some s.id := by
    rw [← h.parentLink_eq hcn]
    simpa using hp
  have hcf := hs c hcn (.single ⟨c, hcn, rfl, hp⟩)
  exact (h.precedes_rest hcf hc).id_ne rfl

theorem Whole.below {s : FlowNode} (hs : Whole front rest s) {c : FlowNode}
    (hc : Ancestor (front ++ rest) s.id c.id) : Whole front rest c :=
  fun d hd hcd => hs d hd (hc.trans hcd)

end FlowNode

open FlowNode

theorem depthFirst_view (v : View) (src : Source) (t : Tree) :
    DepthFirst (v.apply (extract src t)) :=
  (isPart_view v src t).depthFirst (isFlow_extract src t)
    (FlowTree.preorder_numberAll (t.outline src none)).depthFirst

end Flowchart
