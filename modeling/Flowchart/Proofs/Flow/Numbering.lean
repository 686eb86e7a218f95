import Flowchart.Proofs.Flow.Forest

/-! The numbering of an outline: which ids and which parents it gives out. -/
namespace Flowchart.FlowTree
open FlowNode

mutual

/-- A tree takes up as many numbers as it has nodes, without a gap. -/
theorem ids_number (first : Nat) (parent : Option String) :
    (t : FlowTree) → (t.number first parent).map (·.id) = (List.range' first t.size).map nodeId
  | node e cs => by
    rw [number, List.map_cons, ids_numberAll, size, Nat.add_comm 1, List.range'_succ, List.map_cons]

theorem ids_numberAll (first : Nat) (parent : Option String) :
    (ts : List FlowTree) →
      (numberAll first parent ts).map (·.id) = (List.range' first (sizeAll ts)).map nodeId
  | [] => rfl
  | t :: ts => by
    rw [numberAll, List.map_append, ids_number, ids_numberAll, sizeAll, ← List.map_append,
      List.range'_append_1]

end

theorem id_of_getElem?_numberAll {first i : Nat} {parent : Option String} {ts : List FlowTree}
    {n : FlowNode} (hn : (numberAll first parent ts)[i]? = some n) : n.id = nodeId (first + i) := by
  obtain ⟨hlt, -⟩ := List.getElem?_eq_some_iff.mp hn
  rw [length_numberAll] at hlt
  have hid : ((numberAll first parent ts).map (·.id))[i]? = some n.id := by
    rw [List.getElem?_map, hn, Option.map_some]
  rw [ids_numberAll, List.getElem?_map, List.getElem?_range' hlt, Option.map_some,
    Nat.one_mul] at hid
  exact (Option.some.inj hid).symm

/-- Where the node `n` of a numbering from `first` on, below `parent`, may stand. -/
def Placed (first stop : Nat) (parent : Option String) (n : FlowNode) : Prop :=
  ∃ k, first ≤ k ∧ k < stop ∧ n.id = nodeId k ∧
    (n.parent = parent ∨ ∃ j, first ≤ j ∧ j < k ∧ n.parent = some (nodeId j))

private theorem Placed.mono {first first' stop stop' : Nat} {parent : Option String} {n : FlowNode}
    (h : Placed first stop parent n) (hf : first' ≤ first) (hs : stop ≤ stop') :
    Placed first' stop' parent n := by
  obtain ⟨k, hk, hk', hid, hp⟩ := h
  refine ⟨k, by omega, by omega, hid, hp.imp_right ?_⟩
  rintro ⟨j, hj, hjk, he⟩
  exact ⟨j, by omega, hjk, he⟩

/-- What belongs to the first node belongs, seen from outside, to one of the numbers. -/
private theorem Placed.below {first stop : Nat} {parent : Option String} {n : FlowNode}
    (h : Placed (first + 1) stop (some (nodeId first)) n) : Placed first stop parent n := by
  obtain ⟨k, hk, hk', hid, hp⟩ := h
  refine ⟨k, by omega, hk', hid, .inr ?_⟩
  rcases hp with hp | ⟨j, hj, hjk, hp⟩
  · exact ⟨first, by omega, by omega, hp⟩
  · exact ⟨j, by omega, hjk, hp⟩

mutual

theorem placed_number (first : Nat) (parent : Option String) :
    (t : FlowTree) → ∀ n ∈ t.number first parent, Placed first (first + t.size) parent n
  | node e cs => by
    intro n hn
    rw [number, List.mem_cons] at hn
    rw [size, ← Nat.add_assoc]
    rcases hn with rfl | hn
    · exact ⟨first, Nat.le_refl _, by omega, rfl, .inl rfl⟩
    · exact (placed_numberAll (first + 1) (some (nodeId first)) cs n hn).below

theorem placed_numberAll (first : Nat) (parent : Option String) :
    (ts : List FlowTree) →
      ∀ n ∈ numberAll first parent ts, Placed first (first + sizeAll ts) parent n
  | [] => by
    intro n hn
    cases hn
  | t :: ts => by
    intro n hn
    rw [numberAll, List.mem_append] at hn
    rw [sizeAll, ← Nat.add_assoc]
    rcases hn with hn | hn
    · exact (placed_number first parent t n hn).mono (Nat.le_refl _) (by omega)
    · exact (placed_numberAll (first + t.size) parent ts n hn).mono (by omega) (Nat.le_refl _)

end

/-- The numbering of whole trees, with nothing above them, is a forest. -/
theorem forest_numberAll (first : Nat) (ts : List FlowTree) :
    Forest (numberAll first none ts) where
  numbered n hn := by
    obtain ⟨k, -, -, hid, -⟩ := placed_numberAll first none ts n hn
    exact ⟨k, hid⟩
  ordered := by
    have hids := ids_numberAll first none ts
    have hlt : ((List.range' first (sizeAll ts)).map nodeId).Pairwise
        (fun s t => ∃ i j, i < j ∧ s = nodeId i ∧ t = nodeId j) :=
      List.pairwise_map.mpr ((List.pairwise_lt_range' ..).imp fun h => ⟨_, _, h, rfl, rfl⟩)
    rw [← hids] at hlt
    exact (List.pairwise_map (f := fun n : FlowNode => n.id)).mp hlt
  parent_mem n hn p hp := by
    obtain ⟨k, -, hk, hid, hpar⟩ := placed_numberAll first none ts n hn
    rcases hpar with hpar | ⟨j, hj, hjk, hpar⟩
    · rw [hpar] at hp
      cases hp
    · obtain rfl : nodeId j = p := Option.some.inj (hpar.symm.trans hp)
      have hmem : nodeId j ∈ (numberAll first none ts).map (·.id) := by
        rw [ids_numberAll]
        exact List.mem_map_of_mem (List.mem_range'_1.mpr ⟨hj, by omega⟩)
      obtain ⟨m, hm, hmid⟩ := List.mem_map.mp hmem
      exact ⟨m, hm, hmid, j, k, hjk, hmid, hid⟩

end Flowchart.FlowTree
