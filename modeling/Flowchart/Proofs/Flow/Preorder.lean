import Flowchart.Flow.Extract
import Flowchart.Proofs.Flow.Numbering
import Mathlib.Data.List.Chain
import Mathlib.Data.Nat.Find

/-! The flow nodes of a script stand in depth-first preorder and are numbered without gaps, so
the descendants of a node are the block of nodes right after it. -/
namespace Flowchart
namespace FlowNode
variable {nodes : List FlowNode}

/-- Right after `m`, depth first, comes a child of `m` or of one of its ancestors, or a root. -/
def Near (nodes : List FlowNode) (m n : FlowNode) : Prop :=
  ∀ p, n.parent = some p → p = m.id ∨ Ancestor nodes p m.id

/-- The list is a forest in depth-first preorder, numbered from zero without gaps. -/
structure Preorder (nodes : List FlowNode) : Prop where
  id_eq : ∀ (i : Nat) (n : FlowNode), nodes[i]? = some n → n.id = nodeId i
  parent_before : ∀ (i : Nat) (n : FlowNode) (p : String), nodes[i]? = some n →
    n.parent = some p → ∃ j < i, p = nodeId j
  near : ∀ (i : Nat) (m n : FlowNode), nodes[i]? = some m → nodes[i + 1]? = some n →
    Near nodes m n

/-- The descendants of each node are the nodes right after it, up to some point. -/
def Contiguous (nodes : List FlowNode) : Prop :=
  ∀ (i : Nat) (n : FlowNode), nodes[i]? = some n →
    ∃ stop, ∀ (j : Nat) (d : FlowNode), nodes[j]? = some d →
      (Ancestor nodes n.id d.id ↔ i < j ∧ j < stop)

namespace Preorder

private theorem parent_index (h : Preorder nodes) {p : String} {j : Nat} {d : FlowNode}
    (hd : nodes[j]? = some d) (hp : IsParent nodes p d.id) :
    d.parent = some p ∧ ∃ i < j, ∃ m, nodes[i]? = some m ∧ m.id = p := by
  obtain ⟨n, hn, hid, hpar⟩ := hp
  obtain ⟨k, hk⟩ := List.mem_iff_getElem?.mp hn
  obtain rfl : k = j := nodeId_inj.mp ((h.id_eq k n hk).symm.trans (hid.trans (h.id_eq j d hd)))
  obtain rfl : n = d := Option.some.inj (hk.symm.trans hd)
  obtain ⟨i, hi, rfl⟩ := h.parent_before k n p hk hpar
  obtain ⟨hlt, -⟩ := List.getElem?_eq_some_iff.mp hk
  refine ⟨hpar, i, hi, nodes[i], List.getElem?_eq_getElem (by omega), ?_⟩
  exact h.id_eq i _ (List.getElem?_eq_getElem (by omega))

theorem lt_of_ancestor (h : Preorder nodes) {i j : Nat} {a d : FlowNode}
    (ha : nodes[i]? = some a) (hd : nodes[j]? = some d) (had : Ancestor nodes a.id d.id) :
    i < j := by
  generalize hx : d.id = x at had
  induction had generalizing j d with
  | single hp =>
    subst hx
    obtain ⟨-, k, hk, m, hm, hid⟩ := h.parent_index hd hp
    have := nodeId_inj.mp ((h.id_eq k m hm).symm.trans (hid.trans (h.id_eq i a ha)))
    omega
  | tail _ hp ih =>
    subst hx
    obtain ⟨-, k, hk, m, hm, hid⟩ := h.parent_index hd hp
    exact (ih hm hid).trans hk

/-- Between a node and a descendant of it stand descendants only. -/
theorem ancestor_pred (h : Preorder nodes) {i j : Nat} {n m d : FlowNode}
    (hn : nodes[i]? = some n) (hm : nodes[j]? = some m) (hd : nodes[j + 1]? = some d)
    (hij : i < j) (had : Ancestor nodes n.id d.id) : Ancestor nodes n.id m.id := by
  cases had with
  | single hp =>
    rcases h.near j m d hm hd _ (h.parent_index hd hp).1 with he | ha
    · have := nodeId_inj.mp ((h.id_eq i n hn).symm.trans (he.trans (h.id_eq j m hm)))
      omega
    · exact ha
  | tail hb hp =>
    rcases h.near j m d hm hd _ (h.parent_index hd hp).1 with rfl | ha
    · exact hb
    · exact hb.trans ha

theorem contiguous (h : Preorder nodes) : Contiguous nodes := by
  intro i n hn
  let Below (j : Nat) : Prop := ∃ d, nodes[j]? = some d ∧ Ancestor nodes n.id d.id
  have hex : ∃ j, i < j ∧ ¬ Below j := by
    refine ⟨max (i + 1) nodes.length, by omega, ?_⟩
    rintro ⟨d, hd, -⟩
    obtain ⟨hlt, -⟩ := List.getElem?_eq_some_iff.mp hd
    omega
  classical
  -- `Nat.find` gives the first place after the node that no descendant takes.
  have hclosed : ∀ j, Nat.find hex ≤ j → ¬ Below j := by
    intro j hj
    induction hj with
    | refl => exact (Nat.find_spec hex).2
    | @step j hj ih =>
      rintro ⟨d, hd, had⟩
      obtain ⟨hlt, -⟩ := List.getElem?_eq_some_iff.mp hd
      have hm : nodes[j]? = some nodes[j] := List.getElem?_eq_getElem (by omega)
      have hij : i < j := (Nat.find_spec hex).1.trans_le hj
      exact ih ⟨_, hm, h.ancestor_pred hn hm hd hij had⟩
  refine ⟨Nat.find hex, fun j d hd => ⟨?_, ?_⟩⟩
  · intro had
    refine ⟨h.lt_of_ancestor hn hd had, ?_⟩
    by_contra hj
    exact hclosed j (by omega) ⟨d, hd, had⟩
  · rintro ⟨hij, hj⟩
    have hb : Below j := by
      by_contra hb
      exact Nat.find_min hex hj ⟨hij, hb⟩
    obtain ⟨d', hd', had⟩ := hb
    obtain rfl : d' = d := Option.some.inj (hd'.symm.trans hd)
    exact had

end Preorder
end FlowNode

namespace FlowTree
open FlowNode
variable {nodes : List FlowNode}

mutual

theorem ancestor_of_mem_number {first : Nat} {q : String} :
    (t : FlowTree) → t.number first (some q) ⊆ nodes →
      ∀ n ∈ t.number first (some q), Ancestor nodes q n.id
  | node e cs => by
    intro hsub n hn
    rw [number] at hsub hn
    have hroot : Ancestor nodes q (nodeId first) :=
      .single ⟨_, hsub (List.mem_cons_self ..), rfl, rfl⟩
    rcases List.mem_cons.mp hn with rfl | hn
    · exact hroot
    · have hc := ancestor_of_mem_numberAll cs (fun x hx => hsub (List.mem_cons_of_mem _ hx)) n hn
      exact hroot.trans hc

/-- The node whose id the trees are numbered below is an ancestor of all their nodes. -/
theorem ancestor_of_mem_numberAll {first : Nat} {q : String} :
    (ts : List FlowTree) → numberAll first (some q) ts ⊆ nodes →
      ∀ n ∈ numberAll first (some q) ts, Ancestor nodes q n.id
  | [] => by
    intro _ n hn
    cases hn
  | t :: ts => by
    intro hsub n hn
    rw [numberAll] at hsub hn
    rw [List.append_subset] at hsub
    rcases List.mem_append.mp hn with hn | hn
    · exact ancestor_of_mem_number t hsub.1 n hn
    · exact ancestor_of_mem_numberAll ts hsub.2 n hn

end

theorem parent_head_numberAll (first : Nat) (parent : Option String) (ts : List FlowTree) :
    ∀ n ∈ (numberAll first parent ts).head?, n.parent = parent := by
  intro n hn
  cases ts with
  | nil => cases hn
  | cons t ts =>
    cases t with
    | node e cs =>
      rw [numberAll, number, List.cons_append, List.head?_cons] at hn
      obtain rfl := Option.mem_some.mp hn
      rfl

mutual

theorem near_number (first : Nat) (parent : Option String) :
    (t : FlowTree) → t.number first parent ⊆ nodes → (t.number first parent).IsChain (Near nodes)
  | node e cs => by
    intro hsub
    rw [number] at hsub ⊢
    rw [List.isChain_cons]
    refine ⟨?_, near_numberAll _ _ cs fun x hx => hsub (List.mem_cons_of_mem _ hx)⟩
    intro n hn p hp
    rw [parent_head_numberAll _ _ cs n hn] at hp
    exact .inl (Option.some.inj hp).symm

theorem near_numberAll (first : Nat) (parent : Option String) :
    (ts : List FlowTree) → numberAll first parent ts ⊆ nodes →
      (numberAll first parent ts).IsChain (Near nodes)
  | [] => fun _ => List.isChain_nil
  | t :: ts => by
    intro hsub
    rw [numberAll] at hsub ⊢
    rw [List.append_subset] at hsub
    rw [List.isChain_append]
    refine ⟨near_number _ _ t hsub.1, near_numberAll _ _ ts hsub.2, ?_⟩
    intro m hm n hn p hp
    rw [parent_head_numberAll _ _ ts n hn] at hp
    subst hp
    exact .inr (ancestor_of_mem_number t hsub.1 m (List.mem_of_getLast? hm))

end

theorem preorder_numberAll (ts : List FlowTree) : FlowNode.Preorder (numberAll 0 none ts) where
  id_eq i n hn := by
    rw [id_of_getElem?_numberAll hn, Nat.zero_add]
  parent_before i n p hn hp := by
    obtain ⟨k, -, -, hid, hpar⟩ := placed_numberAll 0 none ts n (List.mem_of_getElem? hn)
    obtain rfl : k = i := by
      have hi := id_of_getElem?_numberAll hn
      rw [hid, Nat.zero_add] at hi
      exact nodeId_inj.mp hi
    rcases hpar with hpar | ⟨j, -, hjk, hpar⟩
    · rw [hpar] at hp
      cases hp
    · exact ⟨j, hjk, Option.some.inj (hp.symm.trans hpar)⟩
  near i m n hm hn := by
    have hc : (numberAll 0 none ts).IsChain (Near (numberAll 0 none ts)) :=
      near_numberAll 0 none ts fun _ hx => hx
    obtain ⟨hm', rfl⟩ := List.getElem?_eq_some_iff.mp hm
    obtain ⟨hn', rfl⟩ := List.getElem?_eq_some_iff.mp hn
    exact hc.getElem i hn'

end FlowTree

/-- For every tree and every text, the flow nodes come in depth-first preorder. -/
theorem extract_preorder (src : Source) (t : Tree) :
    FlowNode.Preorder (extract src t) ∧ FlowNode.Contiguous (extract src t) := by
  have h := FlowTree.preorder_numberAll (t.outline src none)
  exact ⟨h, h.contiguous⟩

end Flowchart
