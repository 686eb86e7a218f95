import Flowchart.Proofs.Diagram.Box
import Flowchart.Proofs.Flow.Forest
import Mathlib.Data.List.Induction

/-! The two passes of the layout with their stacks, for the nodes of a list that do not stand below
themselves: they end, find every height that they look up, and give out the positions that boxes
have by recursion. -/
namespace Flowchart

namespace Box

mutual

/-- The ids of a box, its own last. -/
def postorder : Box → List String
  | node id columns => postorderColumns columns ++ [id]

def postorderColumns : List (Int × List Box) → List String
  | [] => []
  | (_, boxes) :: columns => postorderAll boxes ++ postorderColumns columns

def postorderAll : List Box → List String
  | [] => []
  | b :: bs => b.postorder ++ postorderAll bs

end

theorem postorderAll_eq (bs : List Box) : postorderAll bs = bs.flatMap postorder := by
  induction bs with
  | nil => rfl
  | cons b bs ih => rw [postorderAll, ih, List.flatMap_cons]

theorem postorderColumns_eq (columns : List (Int × List Box)) :
    postorderColumns columns = postorderAll (columns.flatMap (·.2)) := by
  induction columns with
  | nil => rfl
  | cons c columns ih =>
    rw [postorderColumns, ih, List.flatMap_cons, postorderAll_eq, postorderAll_eq,
      postorderAll_eq, List.flatMap_append]

end Box

namespace Layout
open Box
variable {nodes : List FlowNode} {known : List String}

theorem isBranch_eq (hids : (nodes.map (·.id)).Nodup) {n : FlowNode} (hn : n ∈ nodes) :
    isBranch nodes n.id = decide (n.kind = .branch) := by
  rw [isBranch, (FlowNode.withId?_eq_some_iff_of_nodup hids).mpr ⟨hn, rfl⟩]
  rfl

/-- The box of a node with all that is below it. -/
def fullBox (nodes : List FlowNode) (id : String) : Box :=
  box nodes nodes.length id

/-- Some ids with all that are below them, each of them after the ones below it. -/
def order (nodes : List FlowNode) (ids : List String) : List String :=
  ids.flatMap fun id => (fullBox nodes id).postorder

theorem length_postorder_box (depth : Nat) (id : String) :
    (box nodes depth id).postorder.length = waysDown nodes depth id := by
  induction depth generalizing id with
  | zero => rfl
  | succ depth ih =>
    have hboxes : ((columns nodes id).map fun c => (c.1, c.2.map (box nodes depth))).flatMap (·.2) =
        (below nodes id).map (box nodes depth) := by
      rw [below, List.flatMap_map, List.map_flatMap]
    have hlength : (postorderColumns ((columns nodes id).map fun c =>
        (c.1, c.2.map (box nodes depth)))).length =
          ((below nodes id).map (waysDown nodes depth)).sum := by
      rw [postorderColumns_eq, hboxes, postorderAll_eq, List.flatMap_map, List.length_flatMap]
      simp only [ih]
    rw [box, postorder, List.length_append, List.length_singleton, waysDown, Nat.add_comm]
    exact congrArg (1 + ·) hlength

theorem length_order (ids : List String) : (order nodes ids).length = rounds nodes ids := by
  rw [order, List.length_flatMap, rounds, ← List.sum_eq_foldr]
  simp only [fullBox, length_postorder_box]

theorem order_append (ids ids' : List String) :
    order nodes (ids ++ ids') = order nodes ids ++ order nodes ids' :=
  List.flatMap_append

theorem mem_below_of_mem_columns {id k : String} {c : Int × List String}
    (hc : c ∈ columns nodes id) (hk : k ∈ c.2) : k ∈ below nodes id :=
  List.mem_flatMap.mpr ⟨c, hc, hk⟩

/-- No bound cuts the boxes of the known ids, and what is below them is known. -/
structure Unrolled (nodes : List FlowNode) (known : List String) : Prop where
  box_eq : ∀ id ∈ known, fullBox nodes id =
    .node id ((columns nodes id).map fun c => (c.1, c.2.map (fullBox nodes)))
  below_subset : ∀ id ∈ known, below nodes id ⊆ known

/-- The known ids have ranks that fall on every way down and are no greater than the number of the
nodes. -/
structure Ranked (nodes : List FlowNode) (known : List String) (rank : String → Nat) : Prop where
  below_subset : ∀ id ∈ known, below nodes id ⊆ known
  below_lt : ∀ id ∈ known, ∀ k ∈ below nodes id, rank k < rank id
  pos : ∀ id ∈ known, 0 < rank id
  le : ∀ id ∈ known, rank id ≤ nodes.length

namespace Ranked
variable {rank : String → Nat}

/-- Levels beyond the rank of an id make no difference to its box. -/
theorem box_eq (h : Ranked nodes known rank) {depth depth' : Nat} {id : String} (hid : id ∈ known)
    (hd : rank id ≤ depth) (hd' : rank id ≤ depth') : box nodes depth id = box nodes depth' id := by
  have hpos := h.pos id hid
  induction depth generalizing depth' id with
  | zero => omega
  | succ depth ih =>
    cases depth' with
    | zero => omega
    | succ depth' =>
      rw [box, box]
      refine congrArg _ (List.map_congr_left fun c hc => ?_)
      refine congrArg _ (List.map_congr_left fun k hk => ?_)
      have hk := mem_below_of_mem_columns hc hk
      have hknown := h.below_subset id hid hk
      have hlt := h.below_lt id hid k hk
      exact ih hknown (by omega) (by omega) (h.pos k hknown)

theorem unrolled (h : Ranked nodes known rank) : Unrolled nodes known where
  below_subset := h.below_subset
  box_eq id hid := by
    have hpos := h.pos id hid
    have hle := h.le id hid
    obtain ⟨depth, hdepth⟩ : ∃ depth, nodes.length = depth + 1 := ⟨nodes.length - 1, by omega⟩
    rw [fullBox, hdepth, box]
    refine congrArg _ (List.map_congr_left fun c hc => ?_)
    refine congrArg _ (List.map_congr_left fun k hk => ?_)
    have hk := mem_below_of_mem_columns hc hk
    have hlt := h.below_lt id hid k hk
    rw [fullBox]
    exact h.box_eq (h.below_subset id hid hk) (by omega) (by omega)

end Ranked

namespace Unrolled

theorem order_one (h : Unrolled nodes known) {id : String} (hid : id ∈ known) :
    order nodes [id] = order nodes (below nodes id) ++ [id] := by
  have hboxes : ((columns nodes id).map fun c => (c.1, c.2.map (fullBox nodes))).flatMap (·.2) =
      (below nodes id).map (fullBox nodes) := by
    rw [below, List.flatMap_map, List.map_flatMap]
  rw [order, List.flatMap_singleton, h.box_eq id hid, postorder, postorderColumns_eq, hboxes,
    postorderAll_eq, List.flatMap_map]
  rfl

theorem order_snoc (h : Unrolled nodes known) (ids : List String) {id : String} (hid : id ∈ known) :
    order nodes (ids ++ [id]) = order nodes ids ++ (order nodes (below nodes id) ++ [id]) := by
  rw [order_append, h.order_one hid]

/-- What holds below an id and for the ids before it holds with it. -/
@[elab_as_elim]
theorem induction (h : Unrolled nodes known) {motive : List String → Prop} (ids : List String)
    (hids : ids ⊆ known) (nil : motive [])
    (snoc : ∀ ids id, id ∈ known → motive ids → motive (below nodes id) → motive (ids ++ [id])) :
    motive ids := by
  induction hn : (order nodes ids).length using Nat.strongRecOn generalizing ids with
  | ind n ih =>
    subst hn
    rcases List.eq_nil_or_concat ids with rfl | ⟨front, id, rfl⟩
    · exact nil
    · rw [List.concat_eq_append] at hids ih ⊢
      have hid : id ∈ known := hids (List.mem_append_right _ (List.mem_singleton_self id))
      have hlength := congrArg List.length (h.order_snoc front hid)
      simp only [List.length_append, List.length_singleton] at hlength
      refine snoc front id hid (ih _ (by omega) front ?_ rfl)
        (ih _ (by omega) _ (h.below_subset id hid) rfl)
      exact fun x hx => hids (List.mem_append_left _ hx)

/-- The first pass visits all, each id before the ones below it. -/
theorem visit_eq (h : Unrolled nodes known) (ids : List String) (hids : ids ⊆ known) :
    ∀ rounds stack seen,
      visit nodes ((order nodes ids).length + rounds) (ids.reverse ++ stack) seen =
        visit nodes rounds stack (order nodes ids ++ seen) := by
  refine h.induction ids hids (fun rounds stack seen => ?_) fun ids id hid hfront hbelow => ?_
  · rw [order, List.flatMap_nil, List.length_nil, Nat.zero_add]
    rfl
  · intro rounds stack seen
    have hrounds : (order nodes (ids ++ [id])).length + rounds =
        ((order nodes (below nodes id)).length + ((order nodes ids).length + rounds)) + 1 := by
      rw [h.order_snoc ids hid]
      simp only [List.length_append, List.length_singleton]
      omega
    rw [hrounds, List.reverse_append, List.reverse_singleton, List.append_assoc,
      List.singleton_append, visit, hbelow, hfront, h.order_snoc ids hid]
    simp only [List.append_assoc, List.singleton_append]

theorem mem_order (h : Unrolled nodes known) {ids : List String} (hids : ids ⊆ known) {id : String}
    (hid : id ∈ ids) : id ∈ order nodes ids := by
  refine List.mem_flatMap.mpr ⟨id, hid, ?_⟩
  rw [h.box_eq id (hids hid), postorder]
  exact List.mem_append_right _ (List.mem_singleton_self id)

/-- What is met from some ids on can be known in their place. -/
theorem order_unrolled (h : Unrolled nodes known) (ids : List String) (hids : ids ⊆ known) :
    order nodes ids ⊆ known ∧ ∀ id ∈ order nodes ids, below nodes id ⊆ order nodes ids := by
  refine h.induction ids hids ?_ fun ids id hid hfront hbelow => ?_
  · exact ⟨List.nil_subset _, fun id hid => absurd hid List.not_mem_nil⟩
  · rw [h.order_snoc ids hid]
    constructor
    · refine List.append_subset.mpr ⟨hfront.1, List.append_subset.mpr ⟨hbelow.1, ?_⟩⟩
      simpa using hid
    · intro x hx k hk
      rcases List.mem_append.mp hx with hx | hx
      · exact List.mem_append_left _ (hfront.2 x hx hk)
      · refine List.mem_append_right _ (List.mem_append_left _ ?_)
        rcases List.mem_append.mp hx with hx | hx
        · exact hbelow.2 x hx hk
        · obtain rfl := List.mem_singleton.mp hx
          exact h.mem_order (h.below_subset x hid) hk

end Unrolled

/-! The table of heights. -/

/-- The height of a node, by recursion. -/
def entry (nodes : List FlowNode) (id : String) : String × Nat :=
  (id, rowHeight * (fullBox nodes id).rows)

/-- A table of heights by recursion. -/
def Exact (nodes : List FlowNode) (heights : List (String × Nat)) : Prop :=
  ∀ e ∈ heights, e = entry nodes e.1

section
variable {heights : List (String × Nat)}

theorem exact_map (ids : List String) (h : Exact nodes heights) :
    Exact nodes ((ids.map (entry nodes)).reverse ++ heights) := by
  intro e he
  rcases List.mem_append.mp he with he | he
  · obtain ⟨id, -, rfl⟩ := List.mem_map.mp (List.mem_reverse.mp he)
    rfl
  · exact h e he

theorem Exact.lookup (h : Exact nodes heights) {id : String} (hid : id ∈ heights.map (·.1)) :
    heights.lookup id = some (rowHeight * (fullBox nodes id).rows) := by
  cases hl : heights.lookup id with
  | none =>
    obtain ⟨e, he, rfl⟩ := List.mem_map.mp hid
    simpa using List.lookup_eq_none_iff.mp hl e he
  | some height =>
    obtain ⟨l₁, l₂, he, -⟩ := List.lookup_eq_some_iff.mp hl
    have hmem : (id, height) ∈ heights := by rw [he]; simp
    exact congrArg (fun e => some e.2) (h _ hmem)

theorem Exact.columnHeight (h : Exact nodes heights) {ids : List String}
    (hids : ids ⊆ heights.map (·.1)) :
    Layout.columnHeight heights ids = some (rowHeight * stacked (ids.map (fullBox nodes))) := by
  induction ids with
  | nil => rfl
  | cons id ids ih =>
    rw [List.cons_subset] at hids
    rw [Layout.columnHeight, h.lookup hids.1, ih hids.2, List.map_cons, stacked, Nat.mul_add]
    rfl

theorem Exact.tallestColumn (h : Exact nodes heights) {columns : List (Int × List String)}
    (hids : columns.flatMap (·.2) ⊆ heights.map (·.1)) : Layout.tallestColumn heights columns =
      some (rowHeight * tallest (columns.map fun c => (c.1, c.2.map (fullBox nodes)))) := by
  induction columns with
  | nil => rfl
  | cons c columns ih =>
    rw [List.flatMap_cons, List.append_subset] at hids
    rw [Layout.tallestColumn, h.columnHeight hids.1, ih hids.2, List.map_cons, tallest,
      ← Nat.mul_max_mul_left]
    rfl

/-- The second half of the first pass finds every height that it looks up. -/
theorem Unrolled.addHeights_eq (h : Unrolled nodes known) (ids : List String) (hids : ids ⊆ known) :
    ∀ heights rest, Exact nodes heights → addHeights nodes heights (order nodes ids ++ rest) =
      addHeights nodes (((order nodes ids).map (entry nodes)).reverse ++ heights) rest := by
  refine h.induction ids hids (fun heights rest _ => rfl) fun ids id hid hfront hbelow => ?_
  intro heights rest hexact
  have hexact' := exact_map (order nodes ids) hexact
  have hexact'' := exact_map (order nodes (below nodes id)) hexact'
  have hkeys : (columns nodes id).flatMap (·.2) ⊆
      ((((order nodes (below nodes id)).map (entry nodes)).reverse ++
        (((order nodes ids).map (entry nodes)).reverse ++ heights)).map (·.1)) := by
    intro k hk
    have hk := h.mem_order (h.below_subset id hid) hk
    refine List.mem_map.mpr ⟨entry nodes k, List.mem_append_left _ ?_, rfl⟩
    exact List.mem_reverse.mpr (List.mem_map_of_mem hk)
  have hentry : entry nodes id = (id, rowHeight + rowHeight *
      tallest ((columns nodes id).map fun c => (c.1, c.2.map (fullBox nodes)))) := by
    rw [entry, h.box_eq id hid, rows, Nat.mul_add, Nat.mul_one]
  rw [h.order_snoc ids hid, List.append_assoc, hfront _ _ hexact, List.append_assoc,
    hbelow _ _ hexact', List.singleton_append, addHeights, hexact''.tallestColumn hkeys]
  simp only [Option.bind_eq_bind, Option.bind_some, ← hentry, List.map_append, List.map_singleton,
    List.reverse_append, List.reverse_singleton, List.append_assoc, List.cons_append,
    List.nil_append]

/-- The first pass gives the heights that the boxes have. -/
theorem Unrolled.heights?_eq (h : Unrolled nodes known) (hroots : roots nodes ⊆ known) :
    heights? nodes = some ((order nodes (roots nodes)).map (entry nodes)).reverse := by
  have hvisit := h.visit_eq (roots nodes) hroots 0 [] []
  have hheights := h.addHeights_eq (roots nodes) hroots [] [] nofun
  rw [length_order, Nat.add_zero, List.append_nil, List.append_nil] at hvisit
  rw [List.append_nil, List.append_nil] at hheights
  rw [heights?, hvisit, visit, Option.bind_eq_bind, Option.bind_some, hheights, addHeights]

end

/-! The second pass. -/

/-- What is given out while some places are pending, the last of them first. -/
def drawn (nodes : List FlowNode) (pending : List (String × Position)) :
    List (String × Position) :=
  pending.reverse.flatMap fun q => (fullBox nodes q.1).place q.2

theorem drawn_append (pending pending' : List (String × Position)) :
    drawn nodes (pending ++ pending') = drawn nodes pending' ++ drawn nodes pending := by
  rw [drawn, List.reverse_append, List.flatMap_append]
  rfl

section
variable {heights : List (String × Nat)}

theorem columnPositions_eq (hh : Exact nodes heights) {ids : List String}
    (hids : ids ⊆ heights.map (·.1)) (top : Position) :
    ∃ positions, columnPositions heights top ids = some positions ∧ positions.map (·.1) = ids ∧
      drawn nodes positions = placeStack top (ids.map (fullBox nodes)) := by
  induction ids generalizing top with
  | nil => exact ⟨[], rfl, rfl, rfl⟩
  | cons id ids ih =>
    rw [List.cons_subset] at hids
    obtain ⟨positions, he, hp, hd⟩ :=
      ih hids.2 ⟨top.x, top.y + (rowHeight * (fullBox nodes id).rows : Nat)⟩
    refine ⟨(id, top) :: positions, ?_, by rw [List.map_cons, hp], ?_⟩
    · rw [columnPositions, hh.lookup hids.1, Option.bind_eq_bind, Option.bind_some, he]
      rfl
    · rw [← List.singleton_append, drawn_append, hd, List.map_cons, placeStack]
      simp [drawn]

theorem positionsBelow_eq (hh : Exact nodes heights) {columns : List (Int × List String)}
    (hids : columns.flatMap (·.2) ⊆ heights.map (·.1)) (p : Position) :
    ∃ positions, positionsBelow heights p columns = some positions ∧
      positions.map (·.1) = columns.flatMap (·.2) ∧
      drawn nodes positions = placeColumns ⟨p.x, p.y + rowHeight⟩
        (columns.map fun c => (c.1, c.2.map (fullBox nodes))) := by
  induction columns with
  | nil => exact ⟨[], rfl, rfl, rfl⟩
  | cons c columns ih =>
    rw [List.flatMap_cons, List.append_subset] at hids
    obtain ⟨first, hfe, hfp, hfd⟩ := columnPositions_eq hh hids.1 ⟨p.x + c.1, p.y + rowHeight⟩
    obtain ⟨rest, hre, hrp, hrd⟩ := ih hids.2
    refine ⟨first ++ rest, ?_, by rw [List.map_append, hfp, hrp, List.flatMap_cons], ?_⟩
    · rw [positionsBelow, hfe, Option.bind_eq_bind, Option.bind_some, hre]
      rfl
    · rw [drawn_append, hfd, hrd, List.map_cons, placeColumns]

/-- The second pass finds every height that it looks up and gives out the places of the boxes. -/
theorem Unrolled.place_eq (h : Unrolled nodes known) (hh : Exact nodes heights)
    (hknown : known ⊆ heights.map (·.1)) (ids : List String) (hids : ids ⊆ known) :
    ∀ first, first.map (·.1) = ids → ∀ rounds pending placed,
      place nodes heights ((order nodes ids).length + rounds) (first.reverse ++ pending) placed =
        place nodes heights rounds pending ((drawn nodes first).reverse ++ placed) := by
  refine h.induction ids hids ?_ fun ids id hid hfront hbelow => ?_
  · intro first hfirst rounds pending placed
    obtain rfl := List.map_eq_nil_iff.mp hfirst
    rw [order, List.flatMap_nil, List.length_nil, Nat.zero_add]
    rfl
  · intro first hfirst rounds pending placed
    obtain ⟨front, last, rfl, hf, hl⟩ := List.map_eq_append_iff.mp hfirst
    obtain ⟨⟨k, p⟩, rfl, rfl⟩ := List.map_eq_singleton_iff.mp hl
    have hbelowKnown : (columns nodes k).flatMap (·.2) ⊆ heights.map (·.1) :=
      List.Subset.trans (h.below_subset k hid) hknown
    obtain ⟨next, he, hn, hd⟩ := positionsBelow_eq hh hbelowKnown p
    have hrounds : (order nodes (ids ++ [k])).length + rounds =
        ((order nodes (below nodes k)).length + ((order nodes ids).length + rounds)) + 1 := by
      rw [h.order_snoc ids hid]
      simp only [List.length_append, List.length_singleton]
      omega
    have hplace : (fullBox nodes k).place p = (k, p) :: drawn nodes next := by
      rw [hd, h.box_eq k hid, Box.place]
    have hdrawn :
        drawn nodes (front ++ [(k, p)]) = (k, p) :: drawn nodes next ++ drawn nodes front := by
      rw [drawn_append, ← hplace]
      simp [drawn]
    rw [hrounds, List.reverse_append, List.reverse_singleton, List.append_assoc,
      List.singleton_append, place, he, Option.bind_eq_bind, Option.bind_some, hbelow next hn,
      hfront front hf, hdrawn]
    simp only [List.reverse_append, List.reverse_cons, List.append_assoc, List.cons_append,
      List.nil_append]

theorem Unrolled.placeRoots_eq (h : Unrolled nodes known) (hh : Exact nodes heights)
    (hknown : known ⊆ heights.map (·.1)) {ids : List String} (hids : ids ⊆ known) (top : Position)
    (placed : List (String × Position)) : placeRoots nodes heights top placed ids =
      some ((Box.placeRoots top (ids.map (fullBox nodes))).reverse ++ placed) := by
  induction ids generalizing top placed with
  | nil => rfl
  | cons id ids ih =>
    rw [List.cons_subset] at hids
    have hplace := h.place_eq hh hknown [id] (by simpa using hids.1) [(id, top)] rfl 0 [] placed
    rw [length_order, Nat.add_zero, List.append_nil, List.reverse_singleton, place] at hplace
    have hdrawn : drawn nodes [(id, top)] = (fullBox nodes id).place top := by simp [drawn]
    rw [placeRoots, hplace, Option.bind_eq_bind, Option.bind_some,
      hh.lookup (hknown hids.1), Option.bind_eq_bind, Option.bind_some, ih hids.2, hdrawn,
      List.map_cons, Box.placeRoots, List.reverse_append, List.append_assoc]
    rfl

end

/-- Both passes of the layout come to their end, and give out the positions of the boxes. -/
theorem Unrolled.positions?_eq (h : Unrolled nodes known) (hroots : roots nodes ⊆ known) :
    positions? nodes = some (Box.placeRoots origin (boxes nodes)).reverse := by
  have hmet := h.order_unrolled (roots nodes) hroots
  have hmetUnrolled : Unrolled nodes (order nodes (roots nodes)) :=
    ⟨fun id hid => h.box_eq id (hmet.1 hid), hmet.2⟩
  have hexact : Exact nodes ((order nodes (roots nodes)).map (entry nodes)).reverse := by
    simpa using exact_map (order nodes (roots nodes)) (nofun : Exact nodes [])
  rw [positions?, h.heights?_eq hroots, Option.bind_eq_bind, Option.bind_some,
    hmetUnrolled.placeRoots_eq hexact, List.append_nil]
  · rfl
  · intro id hid
    refine List.mem_map.mpr ⟨entry nodes id, List.mem_reverse.mpr (List.mem_map_of_mem hid), rfl⟩
  · exact fun id hid => h.mem_order hroots hid

end Layout
end Flowchart
