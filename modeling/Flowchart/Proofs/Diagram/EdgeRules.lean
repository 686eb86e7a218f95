import Flowchart.Proofs.Diagram.Reachability
import Mathlib.Data.List.Nodup
import Mathlib.Data.List.Perm.Subperm

/-! The edges of a flow by their targets: how each drawn node is entered follows from its parent and
from the nodes that stand before it under the same parent. -/
namespace Flowchart

namespace Edge

theorem nodup_keys_distinct (es : List Edge) : ((distinct es).map key).Nodup := by
  induction es with
  | nil => exact List.nodup_nil
  | cons e es ih =>
    rw [distinct, List.map_cons, List.nodup_cons]
    constructor
    · intro hk
      obtain ⟨e', he', hk⟩ := List.mem_map.mp hk
      have hne := (List.mem_filter.mp he').2
      simp [hk] at hne
    · exact ih.sublist (List.filter_sublist.map key)

theorem id_inj {e e' : Edge} : e.id = e'.id ↔ e.key = e'.key := by
  constructor
  · intro h
    have hd := congrArg String.toList h
    rw [id, id, String.toList_append, String.toList_append] at hd
    exact String.toList_inj.mp (List.append_cancel_left hd)
  · exact fun h => congrArg ("edge_" ++ ·) h

end Edge

namespace FlowNode
variable {nodes : List FlowNode}

/-- The nodes that stand before `n` under the same parent, in their order. -/
def before (nodes : List FlowNode) (n : FlowNode) : List FlowNode :=
  (nodes.takeWhile (·.id ≠ n.id)).filter (·.parent = n.parent)

/-- Branches are passed over. -/
def drawnBefore (nodes : List FlowNode) (n : FlowNode) : List FlowNode :=
  (before nodes n).filter isDrawn

/-- The edges by which a drawn node `n` is entered when its parent is `p`. -/
inductive Enters (nodes : List FlowNode) (p n : FlowNode) : Edge → Prop
  /-- An arm is entered from its condition. -/
  | arm {c : FlowNode} {d : Branch} : p.kind = .branch → c ∈ nodes → p.parent = some c.id →
      p.branch = some d → drawnBefore nodes n = [] →
      Enters nodes p n ⟨c.id, n.id, d.edgeClass, some d.name⟩
  | first : p.kind ≠ .branch → drawnBefore nodes n = [] →
      Enters nodes p n ⟨p.id, n.id, if p.kind = .loop then .loopBody
        else if n.kind = .catchClause then .exceptionPath else .sequential, none⟩
  | next {m : FlowNode} : (drawnBefore nodes n).getLast? = some m → m.kind.isTerminal = false →
      Enters nodes p n ⟨m.id, n.id, .sequential, none⟩
  /-- A handler is entered from its try statement, too. -/
  | handler : p.kind = .tryStmt → n.kind.isHandler → before nodes n ≠ [] →
      Enters nodes p n ⟨p.id, n.id,
        if n.kind = .catchClause then .exceptionPath else .sequential, none⟩

theorem Enters.target {p n : FlowNode} {e : Edge} (h : Enters nodes p n e) : e.target = n.id := by
  cases h <;> rfl

/-- How many edges may lead to a node. -/
def maxEntrances (n : FlowNode) : Nat :=
  if n.kind.isHandler then 2 else 1

namespace IsFlow
variable {m n p : FlowNode}

/-- The children of a node up to `n` are what stands before `n`. -/
theorem children_split (h : IsFlow nodes) (hn : n ∈ nodes) (hp : n.parent = some p.id) :
    ∃ after, childrenOf nodes p.id = before nodes n ++ n :: after := by
  obtain ⟨front, rest, he⟩ := List.append_of_mem hn
  have hfront : nodes.takeWhile (·.id ≠ n.id) = front := by
    have hne : ∀ m ∈ front, decide (m.id ≠ n.id) = true := by
      intro m hm
      have hord := h.ordered
      rw [he, List.pairwise_append] at hord
      exact decide_eq_true (hord.2.2 m hm n List.mem_cons_self).id_ne
    rw [he, List.takeWhile_append_of_pos hne, List.takeWhile_cons_of_neg (by simp),
      List.append_nil]
  have hchildren : childrenOf nodes p.id = nodes.filter (·.parent = n.parent) := by
    refine List.filter_congr fun m hm => ?_
    rw [h.parentLink_eq hm, hp]
  refine ⟨rest.filter (·.parent = n.parent), ?_⟩
  rw [hchildren, before, hfront, he, List.filter_append, List.filter_cons_of_pos (by simp)]

theorem drawnBefore_eq (h : IsFlow nodes) (hn : n ∈ nodes) (hpm : p ∈ nodes)
    (hp : n.parent = some p.id) (hk : p.kind ≠ .condition) :
    drawnBefore nodes n = before nodes n := by
  obtain ⟨after, he⟩ := h.children_split hn hp
  refine List.filter_eq_self.mpr fun m hm => ?_
  have hd := h.drawn_children hpm hk
  rw [List.filter_eq_self, he] at hd
  exact hd m (List.mem_append_left _ hm)

theorem head_children_iff (h : IsFlow nodes) (hn : n ∈ nodes) (hp : n.parent = some p.id) :
    (childrenOf nodes p.id).head? = some n ↔ before nodes n = [] := by
  obtain ⟨after, he⟩ := h.children_split hn hp
  constructor
  · intro hhead
    obtain ⟨rest, hrest⟩ := List.head?_eq_some_iff.mp hhead
    exact (h.split_unique he (List.nil_append (n :: rest) ▸ hrest)).2.1
  · intro hb
    rw [he, hb, List.nil_append, List.head?_cons]

theorem neighbours_iff (h : IsFlow nodes) (hn : n ∈ nodes) (hp : n.parent = some p.id) :
    [m, n] <:+: childrenOf nodes p.id ↔ (before nodes n).getLast? = some m := by
  obtain ⟨after, he⟩ := h.children_split hn hp
  constructor
  · rintro ⟨front, back, hin⟩
    have hin : childrenOf nodes p.id = (front ++ [m]) ++ n :: back := by
      rw [← hin]
      simp
    rw [(h.split_unique he hin).2.1, List.getLast?_concat]
  · intro hlast
    obtain ⟨front, hb⟩ := List.getLast?_eq_some_iff.mp hlast
    exact ⟨front, after, by rw [he, hb]; simp⟩

/-- Nodes with a drawn child are no conditions. -/
theorem not_condition_of_drawn (h : IsFlow nodes) (hn : n ∈ nodes) (hd : n.isDrawn)
    (hpm : p ∈ nodes) (hp : n.parent = some p.id) : p.kind ≠ .condition := by
  intro hk
  have hc := h.condition_children p hpm hk n (h.mem_childrenOf.mpr ⟨hn, hp⟩)
  simp [isDrawn, hc] at hd

/-- An edge that the rules for sources give is one by which its target is entered. -/
theorem enters_of_leads (h : IsFlow nodes) {c : EdgeClass} {l : Option String}
    (hl : Leads nodes m n c l) :
    ∃ p ∈ nodes, n ∈ nodes ∧ n.isDrawn ∧ n.parent = some p.id ∧
      Enters nodes p n ⟨m.id, n.id, c, l⟩ := by
  obtain ⟨-, hdrawn⟩ := hl.drawn h
  cases hl with
  | @arm _ b _ d hm hb hd hn =>
    obtain ⟨hb, hbp⟩ := h.mem_childrenOf.mp hb
    obtain ⟨hnm, hnp⟩ := h.mem_childrenOf.mp (List.mem_of_head? hn)
    have hbk : b.kind = .branch := (h.branch_isSome b hb).mp (by rw [hd]; rfl)
    have hfirst : drawnBefore nodes n = [] := by
      rw [h.drawnBefore_eq hnm hb hnp (by simp [hbk])]
      exact (h.head_children_iff hnm hnp).mp hn
    exact ⟨b, hb, hnm, hdrawn, hnp, .arm hbk hm hbp hd hfirst⟩
  | first hm hc hb hn =>
    obtain ⟨hnm, hnp⟩ := h.mem_childrenOf.mp (List.mem_of_head? hn)
    have hfirst : drawnBefore nodes n = [] := by
      rw [h.drawnBefore_eq hnm hm hnp hc]
      exact (h.head_children_iff hnm hnp).mp hn
    exact ⟨m, hm, hnm, hdrawn, hnp, .first hb hfirst⟩
  | @next p _ _ hpm hc hin ht =>
    obtain ⟨hnm, hnp⟩ := h.mem_childrenOf.mp (mem_of_neighbours hin).2
    have hlast : (drawnBefore nodes n).getLast? = some m := by
      rw [h.drawnBefore_eq hnm hpm hnp hc]
      exact (h.neighbours_iff hnm hnp).mp hin
    exact ⟨p, hpm, hnm, hdrawn, hnp, .next hlast ht⟩
  | handler hm hk hn hh =>
    obtain ⟨hnm, hnp⟩ := h.mem_childrenOf.mp hn
    have hclass : entryClass m n =
        if n.kind = .catchClause then .exceptionPath else .sequential := by
      rw [entryClass, if_neg (by simp [hk])]
    refine ⟨m, hm, hnm, hdrawn, hnp, ?_⟩
    -- A handler without anything before it is entered as the first child, by the same edge.
    by_cases hb : before nodes n = []
    · refine .first (by simp [hk]) ?_
      rw [drawnBefore, hb, List.filter_nil]
    · rw [hclass]
      exact .handler hk hh hb

theorem leads_of_enters (h : IsFlow nodes) {e : Edge} (hpm : p ∈ nodes) (hn : n ∈ nodes)
    (hd : n.isDrawn) (hp : n.parent = some p.id) (he : Enters nodes p n e) :
    ∃ m, Leads nodes m n e.cls e.label ∧ e.source = m.id := by
  have hcond := h.not_condition_of_drawn hn hd hpm hp
  have hbefore := h.drawnBefore_eq hn hpm hp hcond
  cases he with
  | @arm c d hk hc hpc hb hfirst =>
    have hhead := (h.head_children_iff hn hp).mpr (hbefore ▸ hfirst)
    exact ⟨c, .arm hc (h.mem_childrenOf.mpr ⟨hpm, hpc⟩) hb hhead, rfl⟩
  | first hk hfirst =>
    exact ⟨p, .first hpm hcond hk ((h.head_children_iff hn hp).mpr (hbefore ▸ hfirst)), rfl⟩
  | @next m hlast ht =>
    exact ⟨m, .next hpm hcond ((h.neighbours_iff hn hp).mpr (hbefore ▸ hlast)) ht, rfl⟩
  | handler hk hh hne =>
    have hclass : (if n.kind = .catchClause then .exceptionPath else .sequential) =
        entryClass p n := by
      rw [entryClass, if_neg (c := p.kind = .loop) (by simp [hk])]
    exact ⟨p, hclass ▸ .handler hpm hk (h.mem_childrenOf.mpr ⟨hn, hp⟩) hh, rfl⟩

/-- The edges of a flow are those by which its drawn nodes are entered. -/
theorem mem_edges_iff_enters (h : IsFlow nodes) {e : Edge} : e ∈ edges nodes ↔
    ∃ p ∈ nodes, ∃ n ∈ nodes, n.isDrawn ∧ n.parent = some p.id ∧ Enters nodes p n e := by
  rw [h.mem_edges_iff]
  constructor
  · rintro ⟨m, n, hl, hs, ht⟩
    obtain ⟨p, hpm, hn, hd, hp, he⟩ := h.enters_of_leads hl
    exact ⟨p, hpm, n, hn, hd, hp, by rwa [← hs, ← ht] at he⟩
  · rintro ⟨p, hpm, n, hn, hd, hp, he⟩
    obtain ⟨m, hl, hs⟩ := h.leads_of_enters hpm hn hd hp he
    exact ⟨m, n, hl, hs, he.target⟩

theorem nodup_edge_ids (nodes : List FlowNode) : ((edges nodes).map Edge.id).Nodup := by
  have hkeys : ((edges nodes).map Edge.key).Nodup := Edge.nodup_keys_distinct _
  rw [show Edge.id = ("edge_" ++ ·) ∘ Edge.key from rfl, ← List.map_map]
  exact hkeys.map fun _ _ h => String.append_right_inj _ |>.mp h

/-- Execution does not go on past the exits and the jumps. -/
theorem not_isTerminal_of_leads (h : IsFlow nodes) {c : EdgeClass} {l : Option String}
    (hl : Leads nodes m n c l) : m.kind.isTerminal = false := by
  have hparent {k : FlowNode} (hm : m ∈ nodes) (hk : k ∈ childrenOf nodes m.id) :
      m.kind.isTerminal = false := by
    obtain ⟨hkm, hkp⟩ := h.mem_childrenOf.mp hk
    have hleaf := h.parent_not_leaf hm hkm hkp
    cases hmk : m.kind <;> simp [hmk, NodeKind.isLeaf, NodeKind.isTerminal] at hleaf ⊢
  cases hl with
  | arm hm hb _ _ => exact hparent hm hb
  | first hm _ _ hn => exact hparent hm (List.mem_of_head? hn)
  | next _ _ _ ht => exact ht
  | handler hm _ hn _ => exact hparent hm hn

/-- The edges into a node come from its parent or condition, from the node before it, or, where both
are possible, from one of two. -/
theorem exists_sources (h : IsFlow nodes) (hn : n ∈ nodes) (hpm : p ∈ nodes) (hd : n.isDrawn)
    (hp : n.parent = some p.id) : ∃ ids : List String, ids.length ≤ maxEntrances n ∧
      ∀ e, Enters nodes p n e → e.source ∈ ids := by
  have hmax : 1 ≤ maxEntrances n := by
    unfold maxEntrances
    split <;> omega
  have hbefore := h.drawnBefore_eq hn hpm hp (h.not_condition_of_drawn hn hd hpm hp)
  cases hlast : (drawnBefore nodes n).getLast? with
  | none =>
    have hnil : drawnBefore nodes n = [] := List.getLast?_eq_none_iff.mp hlast
    refine ⟨[if p.kind = .branch then p.parent.getD "" else p.id], hmax, ?_⟩
    intro e he
    cases he with
    | arm hk _ hpc _ _ => simp [hk, hpc]
    | first hk _ => simp [hk]
    | next hm _ => simp [hnil] at hm
    | handler _ _ hne => exact absurd (hbefore ▸ hnil) hne
  | some m =>
    refine ⟨if n.kind.isHandler then [m.id, p.id] else [m.id], ?_, ?_⟩
    · unfold maxEntrances
      split <;> simp
    · intro e he
      cases he with
      | arm _ _ _ _ hnil => simp [hnil] at hlast
      | first _ hnil => simp [hnil] at hlast
      | next hm _ =>
        obtain rfl : _ = m := Option.some.inj (hm.symm.trans hlast)
        split <;> simp
      | handler _ hh _ => simp [hh]

theorem length_entrances_le (h : IsFlow nodes) (hn : n ∈ nodes) :
    ((edges nodes).filter (·.target = n.id)).length ≤ maxEntrances n := by
  have henters : ∀ e ∈ (edges nodes).filter (·.target = n.id),
      ∃ p ∈ nodes, n.isDrawn ∧ n.parent = some p.id ∧ Enters nodes p n e := by
    intro e he
    obtain ⟨hmem, ht⟩ := List.mem_filter.mp he
    obtain ⟨p, hpm, k, hk, hd, hp, hk'⟩ := h.mem_edges_iff_enters.mp hmem
    obtain rfl := h.eq_of_id hk hn (hk'.target.symm.trans (by simpa using ht))
    exact ⟨p, hpm, hd, hp, hk'⟩
  -- Edges into one node differ in their sources.
  have hnodup : (((edges nodes).filter (·.target = n.id)).map (·.source)).Nodup := by
    have hids := (nodup_edge_ids nodes).sublist (List.filter_sublist (p := (·.target = n.id)).map _)
    refine List.Nodup.map_on ?_ hids.of_map
    intro e he e' he' hs
    apply List.inj_on_of_nodup_map hids he he'
    have ht : e.target = n.id := by simpa using (List.mem_filter.mp he).2
    have ht' : e'.target = n.id := by simpa using (List.mem_filter.mp he').2
    rw [Edge.id_inj, Edge.key, Edge.key, hs, ht, ht']
  cases hedges : (edges nodes).filter (·.target = n.id) with
  | nil => exact Nat.zero_le _
  | cons e es =>
    obtain ⟨p, hpm, hd, hp, -⟩ := henters e (by rw [hedges]; exact List.mem_cons_self)
    obtain ⟨ids, hlen, hids⟩ := h.exists_sources hn hpm hd hp
    rw [← hedges, ← List.length_map (·.source)]
    refine (hnodup.subperm ?_).length_le.trans hlen
    intro id hid
    obtain ⟨e, he, rfl⟩ := List.mem_map.mp hid
    obtain ⟨q, hq, -, hnq, he⟩ := henters e he
    obtain rfl := h.eq_of_parent hpm hq hp hnq
    exact hids e he

end IsFlow
end FlowNode

open FlowNode

/-- The edges of a script in either view: each once and under an id of its own, upwards in the
numbering, none out of an exit or jump, and two into one node for handlers only. -/
theorem edges_view (v : View) (src : Source) (t : Tree) :
    let nodes := v.apply (extract src t)
    (∀ e, e ∈ edges nodes ↔
      ∃ p ∈ nodes, ∃ n ∈ nodes, n.isDrawn ∧ n.parent = some p.id ∧ Enters nodes p n e) ∧
    ((edges nodes).map Edge.id).Nodup ∧
    (∀ e ∈ edges nodes, e.id = "edge_" ++ e.source ++ "_" ++ e.target) ∧
    (∀ e ∈ edges nodes, ∃ i j, i < j ∧ e.source = nodeId i ∧ e.target = nodeId j) ∧
    (∀ n ∈ nodes, n.kind.isTerminal → ∀ e ∈ edges nodes, e.source ≠ n.id) ∧
    ∀ n ∈ nodes, ((edges nodes).filter (·.target = n.id)).length ≤
      if n.kind = .catchClause ∨ n.kind = .finallyClause then 2 else 1 := by
  intro nodes
  have h : IsFlow nodes := isFlow_view v src t
  refine ⟨fun e => h.mem_edges_iff_enters, IsFlow.nodup_edge_ids nodes, ?_, ?_, ?_, ?_⟩
  · intro e _
    rw [Edge.id, Edge.key, String.append_assoc, String.append_assoc, String.append_assoc]
  · intro e he
    obtain ⟨m, n, hl, hs, ht⟩ := h.mem_edges_iff.mp he
    obtain ⟨i, j, hij, hi, hj⟩ := hl.precedes h
    exact ⟨i, j, hij, hs.trans hi, ht.trans hj⟩
  · intro n hn hterminal e he hs
    obtain ⟨m, k, hl, hs', -⟩ := h.mem_edges_iff.mp he
    obtain ⟨hm, -⟩ := hl.ends h
    obtain rfl := h.eq_of_id hm hn (hs'.symm.trans hs)
    rw [h.not_isTerminal_of_leads hl] at hterminal
    cases hterminal
  · intro n hn
    refine (h.length_entrances_le hn).trans_eq ?_
    unfold maxEntrances
    cases n.kind <;> rfl

end Flowchart
