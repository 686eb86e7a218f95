import Flowchart.Flow.View
import Flowchart.Proofs.Flow.OutlineShape

/-! Both views of a script are flows. The logic view drops nodes without children only, so that no
other node moves. -/
namespace Flowchart
namespace FlowNode
variable {nodes : List FlowNode}

/-- A forest that obeys the schema. -/
structure IsFlow (nodes : List FlowNode) : Prop extends Forest nodes, Schema nodes

theorem childrenOf_filter (keep : FlowNode → Bool) (p : String) :
    childrenOf (nodes.filter keep) p = (childrenOf nodes p).filter keep :=
  List.filter_comm ..

/-- A node with a child is not of a kind that has none. -/
theorem IsFlow.parent_not_leaf (h : IsFlow nodes) {m n : FlowNode} (hm : m ∈ nodes) (hn : n ∈ nodes)
    (hp : n.parent = some m.id) : m.kind.isLeaf = false := by
  cases hk : m.kind.isLeaf with
  | false => rfl
  | true =>
    have hc := h.mem_childrenOf.mpr ⟨hn, hp⟩
    rw [h.leaf m hm hk] at hc
    cases hc

/-- Some of the nodes of a flow, in their order, with the parents of all of them. -/
structure IsPart (part nodes : List FlowNode) : Prop where
  sublist : part.Sublist nodes
  parent_mem : ∀ n ∈ part, ∀ m ∈ nodes, n.parent = some m.id → m ∈ part

/-- A part of a flow is a flow. -/
theorem IsPart.isFlow {part : List FlowNode} (hpart : IsPart part nodes) (h : IsFlow nodes) :
    IsFlow part := by
  have hmem : ∀ n ∈ part, n ∈ nodes := fun n hn => hpart.sublist.subset hn
  have hchildren (p : String) : (childrenOf part p).Sublist (childrenOf nodes p) :=
    hpart.sublist.filter _
  have hkind : ∀ n ∈ part, ∀ k, (∃ p ∈ nodes, n.parent = some p.id ∧ p.kind = k) →
      ∃ p ∈ part, n.parent = some p.id ∧ p.kind = k := by
    rintro n hn k ⟨p, hp, hpar, hk⟩
    exact ⟨p, hpart.parent_mem n hn p hp hpar, hpar, hk⟩
  constructor
  · constructor
    · exact fun n hn => h.numbered n (hmem n hn)
    · exact h.ordered.sublist hpart.sublist
    · intro n hn p hp
      obtain ⟨m, hm, rfl, hlt⟩ := h.parent_mem n (hmem n hn) p hp
      exact ⟨m, hpart.parent_mem n hn m hm hp, rfl, hlt⟩
  · constructor
    · exact fun n hn => h.branch_isSome n (hmem n hn)
    · exact fun n hn hk => hkind n hn _ (h.branch_parent n (hmem n hn) hk)
    · exact fun p hp hk c hc => h.condition_children p (hmem p hp) hk c ((hchildren _).subset hc)
    · exact fun p hp hk => ((hchildren _).map _).trans (h.arms p (hmem p hp) hk)
    · exact fun n hn hk => hkind n hn _ (h.case_parent n (hmem n hn) hk)
    · exact fun p hp hk c hc => h.switch_children p (hmem p hp) hk c ((hchildren _).subset hc)
    · exact fun n hn hk => hkind n hn _ (h.handler_parent n (hmem n hn) hk)
    · intro p hp hk
      obtain ⟨body, handlers, he, hbody, hlast⟩ := h.handlers_last p (hmem p hp) hk
      have hsub := hchildren p.id
      rw [he, List.sublist_append_iff] at hsub
      obtain ⟨l₁, l₂, hl, hl₁, hl₂⟩ := hsub
      exact ⟨l₁, l₂, hl, fun c hc => hbody c (hl₁.subset hc), (hl₂.map _).trans hlast⟩
    · intro p hp hk
      have hsub := hchildren p.id
      rw [h.leaf p (hmem p hp) hk] at hsub
      exact List.sublist_nil.mp hsub

/-- Dropping some of the operations and jumps leaves a part. -/
theorem IsFlow.isPart_filter (h : IsFlow nodes) {keep : FlowNode → Bool}
    (hkeep : ∀ n ∈ nodes, n.kind.isLeaf = false → keep n) : IsPart (nodes.filter keep) nodes where
  sublist := List.filter_sublist
  parent_mem n hn m hm hp := by
    have hn := (List.mem_filter.mp hn).1
    exact List.mem_filter.mpr ⟨hm, hkeep m hm (h.parent_not_leaf hm hn hp)⟩

theorem IsFlow.filter (h : IsFlow nodes) {keep : FlowNode → Bool}
    (hkeep : ∀ n ∈ nodes, n.kind.isLeaf = false → keep n) : IsFlow (nodes.filter keep) :=
  (h.isPart_filter hkeep).isFlow h

theorem inLogic_of_not_leaf {n : FlowNode} (h : n.kind.isLeaf = false) : n.inLogic := by
  unfold inLogic
  split <;> simp_all [NodeKind.isLeaf]

/-- In a flow, the logic view leaves every kept node as it is. -/
theorem IsFlow.logicView_eq (h : IsFlow nodes) : logicView nodes = nodes.filter (·.inLogic) := by
  refine (List.map_congr_left (g := fun n => n) ?_).trans (List.map_id' _)
  intro n hn
  cases hp : n.parent with
  | none => rfl
  | some p =>
    have hn := (List.mem_filter.mp hn).1
    obtain ⟨m, hm, rfl, -⟩ := h.parent_mem n hn p hp
    have hk := inLogic_of_not_leaf (h.parent_not_leaf hm hn hp)
    have hany : (nodes.filter (·.inLogic)).any (·.id = m.id) = true :=
      List.any_eq_true.mpr ⟨m, List.mem_filter.mpr ⟨hm, hk⟩, by simp⟩
    simp only [hany, if_true]

end FlowNode

open FlowNode

theorem isFlow_extract (src : Source) (t : Tree) : IsFlow (extract src t) :=
  ⟨FlowTree.forest_numberAll 0 _,
    FlowTree.schema_numberAll (t.outlineWithin_isStatement src t.size none)⟩

/-- What a view shows of a script is a part of its flow. -/
theorem isPart_view (v : View) (src : Source) (t : Tree) :
    IsPart (v.apply (extract src t)) (extract src t) := by
  have h := isFlow_extract src t
  cases v with
  | fullOperations => exact ⟨List.Sublist.refl _, fun _ _ _ hm _ => hm⟩
  | logic =>
    rw [View.apply, h.logicView_eq]
    exact h.isPart_filter fun n _ hk => inLogic_of_not_leaf hk

theorem isFlow_view (v : View) (src : Source) (t : Tree) : IsFlow (v.apply (extract src t)) :=
  (isPart_view v src t).isFlow (isFlow_extract src t)

end Flowchart
