import Flowchart.Flow.Outline
import Mathlib.Data.List.Nodup
import Mathlib.Logic.Relation

/-! Lists of flow nodes that form a forest: numbered upwards, each parent in the list before its
children. -/
namespace Flowchart

theorem toList_nodeId (n : Nat) :
    (nodeId n).toList = "node_".toList ++ Nat.toDigits 10 n := by
  simp [nodeId, String.toList_append, Nat.repr]

theorem nodeId_injective : Function.Injective nodeId := by
  intro m n h
  have hd := congrArg String.toList h
  rw [toList_nodeId, toList_nodeId] at hd
  have hv := congrArg (fun cs => Nat.ofDigitChars 10 cs 0) (List.append_cancel_left hd)
  simpa using hv

@[simp] theorem nodeId_inj {m n : Nat} : nodeId m = nodeId n ↔ m = n :=
  nodeId_injective.eq_iff

theorem nodeId_ne_empty (n : Nat) : nodeId n ≠ "" := by
  intro h
  have hd := congrArg String.toList h
  rw [toList_nodeId] at hd
  simp at hd

namespace FlowNode

theorem parentLink_eq_nodeId_iff {n : FlowNode} {k : Nat} :
    n.parentLink = some (nodeId k) ↔ n.parent = some (nodeId k) := by
  rw [parentLink, Option.filter_eq_some_iff]
  exact and_iff_left (by simpa using nodeId_ne_empty k)

theorem childrenOf_nodeId (nodes : List FlowNode) (k : Nat) :
    childrenOf nodes (nodeId k) = nodes.filter (·.parent = some (nodeId k)) := by
  simp only [childrenOf, parentLink_eq_nodeId_iff]

theorem withId?_eq_some_iff_of_nodup {nodes : List FlowNode} (h : (nodes.map (·.id)).Nodup)
    {id : String} {n : FlowNode} : withId? nodes id = some n ↔ n ∈ nodes ∧ n.id = id := by
  unfold withId?
  constructor
  · intro hf
    exact ⟨List.mem_reverse.mp (List.mem_of_find?_eq_some hf), by simpa using List.find?_some hf⟩
  · rintro ⟨hn, rfl⟩
    cases hf : nodes.reverse.find? (·.id = n.id) with
    | none => exact absurd (List.find?_eq_none.mp hf n (List.mem_reverse.mpr hn)) (by simp)
    | some m =>
      have hm := List.mem_reverse.mp (List.mem_of_find?_eq_some hf)
      have hid : m.id = n.id := by simpa using List.find?_some hf
      rw [List.inj_on_of_nodup_map h hm hn hid]

/-- Nodes of one sort are fewer than those of another one that has them all, and one more. -/
theorem length_filter_lt {p q : FlowNode → Prop} [DecidablePred p] [DecidablePred q]
    {nodes : List FlowNode} {n : FlowNode} (hpq : ∀ m ∈ nodes, p m → q m) (hn : n ∈ nodes)
    (hq : q n) (hp : ¬ p n) :
    (nodes.filter fun m => p m).length < (nodes.filter fun m => q m).length := by
  have hsub : nodes.filter (fun m => p m) =
      (nodes.filter fun m => q m).filter fun m => p m := by
    rw [List.filter_filter]
    refine List.filter_congr fun m hm => ?_
    simpa using hpq m hm
  rw [hsub]
  refine List.length_filter_lt_length_iff_exists.mpr ⟨n, ?_, by simpa using hp⟩
  exact List.mem_filter.mpr ⟨hn, decide_eq_true hq⟩

/-- The node with id `c` belongs to the one with id `p`. -/
def IsParent (nodes : List FlowNode) (p c : String) : Prop :=
  ∃ n ∈ nodes, n.id = c ∧ n.parent = some p

/-- The node with id `a` stands above the one with id `d`, at any distance. -/
def Ancestor (nodes : List FlowNode) : String → String → Prop :=
  Relation.TransGen (IsParent nodes)

/-- The number of the first node is the smaller one. -/
def Precedes (a b : FlowNode) : Prop :=
  ∃ i j, i < j ∧ a.id = nodeId i ∧ b.id = nodeId j

theorem Precedes.id_ne {a b : FlowNode} (h : Precedes a b) : a.id ≠ b.id := by
  intro he
  obtain ⟨i, j, hij, ha, hb⟩ := h
  have := nodeId_inj.mp (ha.symm.trans (he.trans hb))
  omega

theorem Precedes.asymm {a b : FlowNode} (h : Precedes a b) : ¬ Precedes b a := by
  obtain ⟨i, j, hij, ha, hb⟩ := h
  rintro ⟨k, l, hkl, hb', ha'⟩
  have hjk := nodeId_inj.mp (hb.symm.trans hb')
  have hil := nodeId_inj.mp (ha.symm.trans ha')
  omega

theorem Precedes.trans {a b c : FlowNode} (h : Precedes a b) (h' : Precedes b c) :
    Precedes a c := by
  obtain ⟨i, j, hij, ha, hb⟩ := h
  obtain ⟨k, l, hkl, hb', hc⟩ := h'
  have hjk := nodeId_inj.mp (hb.symm.trans hb')
  exact ⟨i, l, by omega, ha, hc⟩

/-- Nodes in the order of their numbers, with the parents of all of them. -/
structure Forest (nodes : List FlowNode) : Prop where
  numbered : ∀ n ∈ nodes, ∃ i, n.id = nodeId i
  ordered : nodes.Pairwise Precedes
  parent_mem : ∀ n ∈ nodes, ∀ p, n.parent = some p → ∃ m ∈ nodes, m.id = p ∧ Precedes m n

namespace Forest
variable {nodes : List FlowNode}

/-- Strong induction along the numbers. -/
theorem induction (h : Forest nodes) {P : FlowNode → Prop}
    (step : ∀ n ∈ nodes, (∀ m ∈ nodes, Precedes m n → P m) → P n) : ∀ n ∈ nodes, P n := by
  have hk : ∀ k, ∀ n ∈ nodes, n.id = nodeId k → P n := by
    intro k
    induction k using Nat.strongRecOn with
    | ind k ih =>
      intro n hn hid
      apply step n hn
      rintro m hm ⟨i, j, hij, hi, hj⟩
      have hjk : j = k := nodeId_inj.mp (hj.symm.trans hid)
      exact ih i (by omega) m hm hi
  intro n hn
  obtain ⟨k, hid⟩ := h.numbered n hn
  exact hk k n hn hid

theorem nodup_ids (h : Forest nodes) : (nodes.map (·.id)).Nodup :=
  List.pairwise_map.mpr (h.ordered.imp Precedes.id_ne)

theorem eq_of_id (h : Forest nodes) {a b : FlowNode} (ha : a ∈ nodes) (hb : b ∈ nodes)
    (he : a.id = b.id) : a = b :=
  List.inj_on_of_nodup_map h.nodup_ids ha hb he

theorem withId?_eq_some_iff (h : Forest nodes) {id : String} {n : FlowNode} :
    withId? nodes id = some n ↔ n ∈ nodes ∧ n.id = id :=
  withId?_eq_some_iff_of_nodup h.nodup_ids

theorem parentLink_eq (h : Forest nodes) {n : FlowNode} (hn : n ∈ nodes) :
    n.parentLink = n.parent := by
  cases hp : n.parent with
  | none => rw [parentLink, hp, Option.filter_none]
  | some p =>
    obtain ⟨m, hm, rfl, -⟩ := h.parent_mem n hn p hp
    obtain ⟨i, hi⟩ := h.numbered m hm
    rw [hi] at hp ⊢
    exact parentLink_eq_nodeId_iff.mpr hp

theorem mem_childrenOf (h : Forest nodes) {c : FlowNode} {p : String} :
    c ∈ childrenOf nodes p ↔ c ∈ nodes ∧ c.parent = some p := by
  rw [childrenOf, List.mem_filter, decide_eq_true_iff]
  exact and_congr_right fun hc => by rw [h.parentLink_eq hc]

/-- Every node that names a parent is among the children of a node. -/
theorem exists_parent (h : Forest nodes) {n : FlowNode} {p : String} (hn : n ∈ nodes)
    (hp : n.parent = some p) :
    ∃ m ∈ nodes, m.id = p ∧ n ∈ childrenOf nodes m.id ∧ Precedes m n := by
  obtain ⟨m, hm, rfl, hlt⟩ := h.parent_mem n hn p hp
  exact ⟨m, hm, rfl, h.mem_childrenOf.mpr ⟨hn, hp⟩, hlt⟩

theorem eq_of_parent (h : Forest nodes) {p q n : FlowNode} (hp : p ∈ nodes) (hq : q ∈ nodes)
    (hnp : n.parent = some p.id) (hnq : n.parent = some q.id) : p = q :=
  h.eq_of_id hp hq (Option.some.inj (hnp.symm.trans hnq))

theorem eq_of_mem_childrenOf (h : Forest nodes) {p q : String} {n : FlowNode}
    (hp : n ∈ childrenOf nodes p) (hq : n ∈ childrenOf nodes q) : p = q :=
  Option.some.inj ((h.mem_childrenOf.mp hp).2.symm.trans (h.mem_childrenOf.mp hq).2)

theorem precedes_of_parent (h : Forest nodes) {m n : FlowNode} (hm : m ∈ nodes) (hn : n ∈ nodes)
    (hp : n.parent = some m.id) : Precedes m n := by
  obtain ⟨q, hq, hid, hlt⟩ := h.parent_mem n hn m.id hp
  exact h.eq_of_id hq hm hid ▸ hlt

theorem children_ordered (h : Forest nodes) (p : String) :
    (childrenOf nodes p).Pairwise Precedes :=
  h.ordered.filter _

end Forest
end FlowNode
end Flowchart
