import Flowchart.Proofs.Diagram.Placement

/-! The equations of the layout. They have one solution on the drawn nodes of a flow, and the
positions that are given out are this solution. -/
namespace Flowchart
namespace Layout
open FlowNode
variable {nodes : List FlowNode}

/-- The rows and the places of the drawn nodes, said by recursion: rows from the columns below a
node, places from the parent and from the sibling before it. -/
structure Recursion (nodes : List FlowNode) (rows : FlowNode → Nat)
    (place : FlowNode → Position) : Prop where
  rows_eq : ∀ n ∈ nodes, n.isDrawn →
    rows n = 1 + ((columnsBelow nodes n).map fun c => (c.2.map rows).sum).foldr max 0
  first_root : ∀ r, (rootNodes nodes).head? = some r → place r = ⟨300, 50⟩
  next_root : ∀ r s, [r, s] <:+: rootNodes nodes →
    place s = ⟨300, (place r).y + 110 * rows r + 60⟩
  first_in_column : ∀ n ∈ nodes, n.isDrawn → ∀ c ∈ columnsBelow nodes n, ∀ m,
    c.2.head? = some m → place m = ⟨(place n).x + c.1, (place n).y + 110⟩
  next_in_column : ∀ n ∈ nodes, n.isDrawn → ∀ c ∈ columnsBelow nodes n, ∀ l m,
    [l, m] <:+: c.2 → place m = ⟨(place n).x + c.1, (place l).y + 110 * rows l⟩

/-- The place of a node in a diagram: its position, or the corner if it has none. -/
def placeOf (nodes : List FlowNode) (n : FlowNode) : Position :=
  (position? nodes n.id).getD ⟨0, 0⟩

theorem Stands.placeOf_eq (h : IsFlow nodes) {n : FlowNode} {p : Position}
    (hs : Stands nodes n p) : placeOf nodes n = p := by
  rw [placeOf, (position?_eq_some_iff h).mpr ⟨n, rfl, hs⟩, Option.getD_some]

theorem split_of_neighbours {group : List FlowNode} {l m : FlowNode} (h : [l, m] <:+: group) :
    ∃ before after, group = before ++ l :: m :: after ∧ group = (before ++ [l]) ++ m :: after := by
  obtain ⟨before, after, rfl⟩ := h
  exact ⟨before, after, by simp, by simp⟩

theorem recursion_placeOf (h : IsFlow nodes) :
    Recursion nodes (rowsOf nodes) (placeOf nodes) where
  rows_eq _ hn _ := rowsOf_eq h hn
  first_root r hr := by
    obtain ⟨after, he⟩ := List.head?_eq_some_iff.mp hr
    have hs : Stands nodes r _ := .root (show rootNodes nodes = [] ++ r :: after from he)
    exact hs.placeOf_eq h
  next_root r s hrs := by
    obtain ⟨before, after, hr, hs⟩ := split_of_neighbours hrs
    rw [(Stands.root hr).placeOf_eq h, (Stands.root hs).placeOf_eq h, List.map_append,
      List.sum_append]
    simp [origin, rowHeight, boxHeight, gap, Int.add_assoc]
  first_in_column n hn hd c hc m hm := by
    obtain ⟨p, hp⟩ := exists_stands h n hn hd
    obtain ⟨after, he⟩ := List.head?_eq_some_iff.mp hm
    have hc : (c.1, [] ++ m :: after) ∈ columnsBelow nodes n := he ▸ hc
    rw [hp.placeOf_eq h, (Stands.column hn hd hp hc).placeOf_eq h]
    simp [rowHeight, boxHeight, gap]
  next_in_column n hn hd c hc l m hlm := by
    obtain ⟨p, hp⟩ := exists_stands h n hn hd
    obtain ⟨before, after, hl, hm⟩ := split_of_neighbours hlm
    have hcl : (c.1, before ++ l :: m :: after) ∈ columnsBelow nodes n := hl ▸ hc
    have hcm : (c.1, (before ++ [l]) ++ m :: after) ∈ columnsBelow nodes n := hm ▸ hc
    rw [hp.placeOf_eq h, (Stands.column hn hd hp hcl).placeOf_eq h,
      (Stands.column hn hd hp hcm).placeOf_eq h, List.map_append, List.sum_append]
    simp [rowHeight, boxHeight, gap, Int.add_assoc, Int.mul_add]

namespace Recursion
variable {rows : FlowNode → Nat} {place : FlowNode → Position}

theorem rows_unique (hr : Recursion nodes rows place) (h : IsFlow nodes) {n : FlowNode}
    (hn : n ∈ nodes) (hd : n.isDrawn) : rows n = rowsOf nodes n := by
  induction hroom : room nodes n using Nat.strongRecOn generalizing n with
  | ind k ih =>
    subst hroom
    rw [hr.rows_eq n hn hd, rowsOf_eq h hn]
    refine congrArg (fun l => 1 + l.foldr max 0) (List.map_congr_left fun c hc => ?_)
    refine congrArg List.sum (List.map_congr_left fun m hm => ?_)
    obtain ⟨hmn, hlt, hmd⟩ := mem_of_column h hn hc hm
    exact ih _ (room_lt h hn hmn hlt) hmn hmd rfl

theorem place_root (hr : Recursion nodes rows place) (h : IsFlow nodes)
    {before after : List FlowNode} {r : FlowNode} (he : rootNodes nodes = before ++ r :: after) :
    place r = ⟨origin.x,
      origin.y + (before.map fun s => rowHeight * (rowsOf nodes s : Int) + gap).sum⟩ := by
  induction before using List.reverseRecOn generalizing r after with
  | nil => exact hr.first_root r (by rw [he]; rfl)
  | append_singleton before s ih =>
    have hs : rootNodes nodes = before ++ s :: r :: after := by rw [he]; simp
    have hin : [s, r] <:+: rootNodes nodes := ⟨before, after, by rw [hs]; simp⟩
    obtain ⟨hsn, hsd⟩ := isDrawn_of_root h (show s ∈ rootNodes nodes by rw [hs]; simp)
    rw [hr.next_root s r hin, ih hs, hr.rows_unique h hsn hsd, List.map_append, List.sum_append]
    simp [origin, rowHeight, boxHeight, gap, Int.add_assoc]

theorem place_column (hr : Recursion nodes rows place) (h : IsFlow nodes) {n m : FlowNode}
    (hn : n ∈ nodes) (hd : n.isDrawn) {shift : Int} {before after : List FlowNode}
    (hc : (shift, before ++ m :: after) ∈ columnsBelow nodes n) :
    place m = ⟨(place n).x + shift,
      (place n).y + rowHeight + rowHeight * (before.map (rowsOf nodes)).sum⟩ := by
  induction before using List.reverseRecOn generalizing m after with
  | nil =>
    rw [hr.first_in_column n hn hd _ hc m rfl]
    simp [rowHeight, boxHeight, gap]
  | append_singleton before l ih =>
    have he : (before ++ [l]) ++ m :: after = before ++ l :: m :: after := by simp
    rw [he] at hc
    have hin : [l, m] <:+: before ++ l :: m :: after := ⟨before, after, by simp⟩
    have hl : l ∈ before ++ l :: m :: after := by simp
    obtain ⟨hln, -, hld⟩ := mem_of_column h hn hc hl
    rw [hr.next_in_column n hn hd _ hc l m hin, ih hc, hr.rows_unique h hln hld, List.map_append,
      List.sum_append]
    simp [rowHeight, boxHeight, gap, Int.add_assoc, Int.mul_add]

/-- The equations leave no choice. -/
theorem place_unique (hr : Recursion nodes rows place) (h : IsFlow nodes) {n : FlowNode}
    {p : Position} (hs : Stands nodes n p) : place n = p := by
  induction hs with
  | root he => exact hr.place_root h he
  | column hn hd _ hc ih => rw [hr.place_column h hn hd hc, ih]

end Recursion
end Layout

open Layout

/-- In both views the passes of the layout end, with the solution of the equations as positions, for
the drawn nodes and for nothing else. So every box of a diagram stands where it was placed. -/
theorem position?_recursion (v : View) (src : Source) (t : Tree) :
    let nodes := v.apply (extract src t)
    (positions? nodes).isSome ∧ (∃ rows place, Recursion nodes rows place) ∧
      (∀ rows place, Recursion nodes rows place → ∀ id p,
        position? nodes id = some p ↔ ∃ n ∈ nodes, n.isDrawn ∧ n.id = id ∧ place n = p) ∧
      ∀ r ∈ (Diagram.ofNodes nodes).nodes, position? nodes r.id = some r.position := by
  intro nodes
  have h : FlowNode.IsFlow nodes := isFlow_view v src t
  refine ⟨?_, ⟨_, _, recursion_placeOf h⟩, fun rows place hr id p => ?_, fun r hr => ?_⟩
  · rw [positions?_eq h]
    rfl
  · rw [position?_eq_some_iff h]
    constructor
    · rintro ⟨n, hid, hs⟩
      exact ⟨n, (hs.mem h).1, (hs.mem h).2, hid, hr.place_unique h hs⟩
    · rintro ⟨n, hn, hd, hid, rfl⟩
      obtain ⟨p, hs⟩ := exists_stands h n hn hd
      exact ⟨n, hid, hr.place_unique h hs ▸ hs⟩
  · obtain ⟨n, hn, rfl⟩ := List.mem_map.mp hr
    obtain ⟨hn, hd⟩ := List.mem_filter.mp hn
    obtain ⟨p, hs⟩ := exists_stands h n hn hd
    have hp := (position?_eq_some_iff h).mpr ⟨n, rfl, hs⟩
    have hlookup : (placements nodes).reverse.lookup n.id = some p := hp
    simp [FlowNode.render, hp, hlookup]

end Flowchart
