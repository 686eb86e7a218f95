import Flowchart.Proofs.Flow.LogicView
import Flowchart.Proofs.Flow.MadeFor
import Flowchart.Proofs.Flow.StatementNodes

/-! The places that the function nodes of a script come from. -/
namespace Flowchart

namespace Occurrence
variable {root : Tree} {p q : Occurrence}

/-! What a place holds is a part of the tree that the place is a part of. -/

theorem children_mem_preorder (hp : p.tree ∈ root.preorder) (hq : q ∈ p.children) :
    q.tree ∈ root.preorder :=
  Tree.child_mem_preorder (p.map_children ▸ List.mem_map_of_mem hq) root hp

theorem field?_mem_preorder {name : String} (hp : p.tree ∈ root.preorder)
    (hq : p.field? name = some q) : q.tree ∈ root.preorder :=
  children_mem_preorder hp (List.mem_of_find?_eq_some hq)

theorem firstStatement?_mem_preorder (hp : p.tree ∈ root.preorder)
    (hq : p.firstStatement? = some q) : q.tree ∈ root.preorder :=
  children_mem_preorder hp (List.mem_of_find?_eq_some hq)

theorem filter_mem_preorder {keep : Occurrence → Bool} (hp : p.tree ∈ root.preorder)
    (hq : q ∈ p.children.filter keep) : q.tree ∈ root.preorder :=
  children_mem_preorder hp (List.mem_filter.mp hq).1

theorem unwrap_mem_preorder (hp : p.tree ∈ root.preorder) (hq : p.unwrap = some q) :
    q.tree ∈ root.preorder := by
  fun_induction unwrap p with
  | case1 p _ h => cases hq
  | case2 p _ r h ih => exact ih (firstStatement?_mem_preorder hp h) hq
  | case3 p => exact Option.some.inj hq ▸ hp

theorem HasClause.mem_preorder (h : p.HasClause q) (hp : p.tree ∈ root.preorder) :
    q.tree ∈ root.preorder := by
  obtain ⟨-, b, hb, hq, -⟩ := h
  exact filter_mem_preorder (field?_mem_preorder hp hb) hq

theorem Declares.mem_preorder (h : p.Declares q) (hp : p.tree ∈ root.preorder) :
    q.tree ∈ root.preorder := by
  obtain ⟨-, d, hd, -, -, u, hu, hq⟩ := h
  exact unwrap_mem_preorder (field?_mem_preorder (children_mem_preorder hp hd) hu) hq

theorem Calls.mem_preorder (h : p.Calls q) (hp : p.tree ∈ root.preorder) :
    q.tree ∈ root.preorder := by
  obtain ⟨-, e, x, he, hx, -, u, hu, hq⟩ := h
  have hx := unwrap_mem_preorder (firstStatement?_mem_preorder hp he) hx
  exact unwrap_mem_preorder (field?_mem_preorder hx hu) hq

theorem Holds.mem_preorder (h : Holds p q) (hp : p.tree ∈ root.preorder) :
    q.tree ∈ root.preorder := by
  cases h with
  | statement _ hq => exact filter_mem_preorder hp hq
  | body _ hq | consequence _ hq | alternative _ hq _ | tryBody _ hq | finalizer _ hq _ =>
    exact field?_mem_preorder hp hq
  | elseClause _ he _ hq => exact firstStatement?_mem_preorder (field?_mem_preorder hp he) hq
  | clauseBody hc hq | clauseRest hc _ hq _ => exact filter_mem_preorder (hc.mem_preorder hp) hq
  | handler _ hh hq | finalizerBody _ hh hq =>
    exact field?_mem_preorder (field?_mem_preorder hp hh) hq
  | functionValue hd _ => exact hd.mem_preorder hp
  | calledFunction hf _ hq _ => exact field?_mem_preorder (hf.mem_preorder hp) hq

end Occurrence

theorem InStatementPosition.mem_preorder {root : Tree} {p : Occurrence}
    (h : InStatementPosition root p) : p.tree ∈ root.preorder := by
  induction h with
  | refl => exact root.mem_preorder_self
  | tail _ hstep ih => exact hstep.mem_preorder ih

/-- A tree has the range of the function node that it makes. -/
theorem Tree.range_of_function_mem_made {src : Source} {t : Tree} {r : CharRange}
    (h : (NodeKind.function, r) ∈ t.made src) : r = src.range t.span := by
  obtain ⟨k, u, hu, he⟩ := exists_makesFor h
  obtain ⟨hk, rfl⟩ := Prod.ext_iff.mp he
  obtain rfl : NodeKind.function = k := hk
  cases hu
  rfl

/-- The statement or function at `p` makes the function node `n`, which has its range. -/
structure MakesFunction (src : Source) (root : Tree) (p : Occurrence) (n : FlowNode) : Prop where
  position : InStatementPosition root p
  made : (NodeKind.function, n.range) ∈ p.tree.made src
  range : n.range = src.range p.tree.span

/-- Every flow node is made at a place in statement position. -/
theorem exists_made {src : Source} {root : Tree} {n : FlowNode} (hn : n ∈ extract src root) :
    ∃ p, InStatementPosition root p ∧ (n.kind, n.range) ∈ p.tree.made src := by
  have hentry : n.toEntry ∈ FlowTree.entriesAll (root.outline src none) := by
    rw [← FlowTree.map_toEntry_numberAll 0 none]
    exact List.mem_map_of_mem hn
  have hmark := (Occurrence.outline_perm ⟨[], root⟩ none).mem_iff.mp
    (List.mem_map_of_mem (f := fun e => (e.kind, e.range)) hentry)
  obtain ⟨p, hp, hmade⟩ := List.mem_flatMap.mp hmark
  exact ⟨p, Occurrence.mem_positions_iff.mp hp, hmade⟩

theorem exists_makesFunction {src : Source} {root : Tree} {v : View} {n : FlowNode}
    (hn : n ∈ v.apply (extract src root)) (hkind : n.kind = .function) :
    ∃ p, MakesFunction src root p n := by
  obtain ⟨p, hp, hmade⟩ := exists_made ((isPart_view v src root).sublist.subset hn)
  rw [hkind] at hmade
  exact ⟨p, hp, hmade, Tree.range_of_function_mem_made hmade⟩

end Flowchart
