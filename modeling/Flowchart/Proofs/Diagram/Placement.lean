import Flowchart.Diagram.Basic
import Flowchart.Proofs.Diagram.LayoutLoops
import Flowchart.Proofs.Diagram.Reachability

/-! The layout of a flow, said by recursion along the parents: where a node stands follows from its
parent and from the rows of the siblings before it. Every drawn node has exactly one place. -/
namespace Flowchart

namespace FlowNode

theorem Forest.idxOf_lt {nodes : List FlowNode} (h : Forest nodes) {m n : FlowNode} (hm : m ∈ nodes)
    (hn : n ∈ nodes) (hlt : Precedes m n) : nodes.idxOf m < nodes.idxOf n := by
  have hmlen := List.idxOf_lt_length_of_mem hm
  have hnlen := List.idxOf_lt_length_of_mem hn
  rcases Nat.lt_trichotomy (nodes.idxOf m) (nodes.idxOf n) with hi | hi | hi
  · exact hi
  · obtain rfl := (List.idxOf_inj hm).mp hi
    exact absurd hlt hlt.asymm
  · have hnm := List.pairwise_iff_getElem.mp h.ordered _ _ hnlen hmlen hi
    rw [List.getElem_idxOf, List.getElem_idxOf] at hnm
    exact absurd hlt hnm.asymm

end FlowNode

namespace Layout
open FlowNode
variable {nodes : List FlowNode}

/-- How far an arm stands beside its condition. -/
def shiftOf (arm : FlowNode) : Int :=
  if arm.branch = some .onTrue then armOffset else -armOffset

/-- The columns below a node, each with its distance to the right: the children of each arm of a
condition, or else the children of the node. -/
def columnsBelow (nodes : List FlowNode) (n : FlowNode) : List (Int × List FlowNode) :=
  if n.kind = .condition then
    (childrenOf nodes n.id).map fun arm => (shiftOf arm, childrenOf nodes arm.id)
  else [(0, childrenOf nodes n.id)]

theorem mem_columnsBelow {n : FlowNode} {shift : Int} {column : List FlowNode} :
    (shift, column) ∈ columnsBelow nodes n ↔
      (n.kind = .condition ∧ ∃ arm ∈ childrenOf nodes n.id,
        shift = shiftOf arm ∧ column = childrenOf nodes arm.id) ∨
      (n.kind ≠ .condition ∧ shift = 0 ∧ column = childrenOf nodes n.id) := by
  unfold columnsBelow
  split_ifs with hk
  · simp [hk, eq_comm]
  · simp [hk]

/-- The ids of some columns. -/
def columnIds (columns : List (Int × List FlowNode)) : List (Int × List String) :=
  columns.map fun c => (c.1, c.2.map (·.id))

/-- A condition has a true arm, or a false arm, or both in this order. -/
theorem arms_cases {first : FlowNode} {rest : List FlowNode}
    (h : ((first :: rest).map (·.branch)).Sublist [some .onTrue, some .onFalse]) :
    rest = [] ∧ (first.branch = some .onTrue ∨ first.branch = some .onFalse) ∨
      ∃ second, rest = [second] ∧ first.branch = some .onTrue ∧ second.branch = some .onFalse := by
  rw [List.map_cons, List.cons_sublist_cons'] at h
  rcases h with h | ⟨hfirst, h⟩
  · rw [List.cons_sublist_cons'] at h
    simp at h
    exact .inl ⟨h.2, .inr h.1⟩
  · rw [List.sublist_singleton, List.map_eq_nil_iff, List.map_eq_singleton_iff] at h
    rcases h with h | ⟨second, hrest, hsecond⟩
    · exact .inl ⟨h, .inl hfirst⟩
    · exact .inr ⟨second, hrest, hfirst, hsecond⟩

theorem armShift_eq (h : IsFlow nodes) {arm : FlowNode} (ha : arm ∈ nodes) (index : Nat)
    (hb : arm.branch = some .onTrue ∧ index = 0 ∨ arm.branch = some .onFalse) :
    armShift nodes index arm.id = shiftOf arm := by
  rw [armShift, h.withId?_eq_some_iff.mpr ⟨ha, rfl⟩, shiftOf]
  rcases hb with ⟨hb, rfl⟩ | hb
  · simp [hb]
  · simp [hb]

/-- The columns that the layout draws are those of the flow. A condition without arms has a single
empty column. -/
theorem columns_eq (h : IsFlow nodes) {n : FlowNode} (hn : n ∈ nodes) :
    columns nodes n.id = columnIds (columnsBelow nodes n) ∨
      columns nodes n.id = [(0, [])] ∧ columnsBelow nodes n = [] := by
  have hmem : ∀ c ∈ childrenOf nodes n.id, c ∈ nodes := fun c hc => (h.mem_childrenOf.mp hc).1
  have hfilter : (childIds nodes n.id).filter (isBranch nodes) =
      ((childrenOf nodes n.id).filter fun c => decide (n.kind = .condition)).map (·.id) := by
    rw [childIds, List.filter_map]
    refine congrArg _ (List.filter_congr fun c hc => ?_)
    simp [isBranch_eq h.nodup_ids (hmem c hc), h.branch_iff hn hc]
  by_cases hk : n.kind = .condition
  · have harms := h.arms n hn hk
    simp only [hk, decide_true, List.filter_true] at hfilter
    rw [columns, hfilter, columnsBelow, if_pos hk]
    cases hc : childrenOf nodes n.id with
    | nil => exact .inr ⟨by rw [childIds, hc]; rfl, rfl⟩
    | cons first rest =>
      refine .inl ?_
      rw [hc] at harms hmem
      have hfirst := hmem first (List.mem_cons_self ..)
      rcases arms_cases harms with ⟨rfl, hb⟩ | ⟨second, rfl, hb, hb'⟩
      · have hs := armShift_eq h hfirst 0 (by simpa using hb)
        simp [childIds, columnIds, hs]
      · have hs := armShift_eq h hfirst 0 (.inl ⟨hb, rfl⟩)
        have hs' := armShift_eq h (hmem second (by simp)) 1 (.inr hb')
        simp [childIds, columnIds, hs, hs']
  · simp only [hk, decide_false, List.filter_false] at hfilter
    rw [columns, hfilter, columnsBelow, if_neg hk]
    exact .inl rfl

/-- A column belongs to one node, which is drawn above it or is an arm of what is drawn above it. -/
theorem exists_owner (h : IsFlow nodes) {n : FlowNode} (hn : n ∈ nodes) {shift : Int}
    {column : List FlowNode} (hc : (shift, column) ∈ columnsBelow nodes n) :
    ∃ q ∈ nodes, column = childrenOf nodes q.id ∧ q.kind ≠ .condition ∧
      (q = n ∧ shift = 0 ∨ q.kind = .branch ∧ q ∈ childrenOf nodes n.id ∧ shift = shiftOf q) := by
  rcases mem_columnsBelow.mp hc with ⟨hk, arm, ha, rfl, rfl⟩ | ⟨hk, rfl, rfl⟩
  · have hbranch := (h.branch_iff hn ha).mpr hk
    exact ⟨arm, (h.mem_childrenOf.mp ha).1, rfl, by rw [hbranch]; nofun, .inr ⟨hbranch, ha, rfl⟩⟩
  · exact ⟨n, hn, rfl, hk, .inl ⟨rfl, rfl⟩⟩

theorem mem_of_column (h : IsFlow nodes) {n m : FlowNode} (hn : n ∈ nodes) {shift : Int}
    {column : List FlowNode} (hc : (shift, column) ∈ columnsBelow nodes n) (hm : m ∈ column) :
    m ∈ nodes ∧ Precedes n m ∧ m.isDrawn := by
  obtain ⟨q, hq, rfl, hqk, hqn⟩ := exists_owner h hn hc
  obtain ⟨hmn, hmq⟩ := h.mem_childrenOf.mp hm
  have hlt := h.precedes_of_parent hq hmn hmq
  have hdrawn : m.isDrawn := by simpa [isDrawn] using mt (h.branch_iff hq hm).mp hqk
  refine ⟨hmn, ?_, hdrawn⟩
  rcases hqn with ⟨rfl, -⟩ | ⟨-, hqn, -⟩
  · exact hlt
  · exact (h.precedes_of_parent hn hq (h.mem_childrenOf.mp hqn).2).trans hlt

/-- A node stands in one column only. -/
theorem column_unique (h : IsFlow nodes) {n n' m : FlowNode} (hn : n ∈ nodes) (hn' : n' ∈ nodes)
    (hd : n.isDrawn) (hd' : n'.isDrawn) {shift shift' : Int} {column column' : List FlowNode}
    (hc : (shift, column) ∈ columnsBelow nodes n) (hc' : (shift', column') ∈ columnsBelow nodes n')
    (hm : m ∈ column) (hm' : m ∈ column') : n = n' ∧ shift = shift' ∧ column = column' := by
  obtain ⟨q, hq, rfl, -, hqn⟩ := exists_owner h hn hc
  obtain ⟨q', hq', rfl, -, hqn'⟩ := exists_owner h hn' hc'
  obtain rfl := h.eq_of_id hq hq' (h.eq_of_mem_childrenOf hm hm')
  have hnot {k : FlowNode} (hk : k.isDrawn) (hb : k.kind = .branch) : False := by
    simp [isDrawn, hb] at hk
  rcases hqn with ⟨rfl, hs⟩ | ⟨hb, hqc, hs⟩
  · rcases hqn' with ⟨rfl, hs'⟩ | ⟨hb, -⟩
    · exact ⟨rfl, hs.trans hs'.symm, rfl⟩
    · exact (hnot hd hb).elim
  · rcases hqn' with ⟨rfl, -⟩ | ⟨-, hqc', hs'⟩
    · exact (hnot hd' hb).elim
    · exact ⟨h.eq_of_id hn hn' (h.eq_of_mem_childrenOf hqc hqc'), hs.trans hs'.symm, rfl⟩

/-- Every drawn node with a parent stands in a column of a drawn node before it. -/
theorem exists_column (h : IsFlow nodes) {m p : FlowNode} (hm : m ∈ nodes) (hd : m.isDrawn)
    (hp : p ∈ nodes) (hmp : m.parent = some p.id) :
    ∃ n ∈ nodes, n.isDrawn ∧ Precedes n m ∧
      ∃ shift column, (shift, column) ∈ columnsBelow nodes n ∧ m ∈ column := by
  have hmc : m ∈ childrenOf nodes p.id := h.mem_childrenOf.mpr ⟨hm, hmp⟩
  have hlt := h.precedes_of_parent hp hm hmp
  have hpk : p.kind ≠ .condition := mt (h.branch_iff hp hmc).mpr (by simpa [isDrawn] using hd)
  by_cases hb : p.kind = .branch
  · obtain ⟨c, hc, hpc, hck⟩ := h.branch_parent p hp hb
    have hcd : c.isDrawn := by simp [isDrawn, hck]
    have hpc' : p ∈ childrenOf nodes c.id := h.mem_childrenOf.mpr ⟨hp, hpc⟩
    exact ⟨c, hc, hcd, (h.precedes_of_parent hc hp hpc).trans hlt, shiftOf p, _,
      mem_columnsBelow.mpr (.inl ⟨hck, p, hpc', rfl, rfl⟩), hmc⟩
  · exact ⟨p, hp, by simpa [isDrawn] using hb, hlt, 0, _,
      mem_columnsBelow.mpr (.inr ⟨hpk, rfl, rfl⟩), hmc⟩

/-! The boxes of a flow, which no bound on the depth cuts. -/

/-- All that a box can have below it comes after it in the list. -/
def room (nodes : List FlowNode) (n : FlowNode) : Nat :=
  nodes.length - nodes.idxOf n

theorem room_lt (h : IsFlow nodes) {m n : FlowNode} (hm : m ∈ nodes) (hn : n ∈ nodes)
    (hlt : Precedes m n) : room nodes n < room nodes m := by
  have hi := h.idxOf_lt hm hn hlt
  have hl := List.idxOf_lt_length_of_mem hn
  unfold room
  omega

theorem mem_below (h : IsFlow nodes) {n : FlowNode} (hn : n ∈ nodes) {id : String}
    (hid : id ∈ below nodes n.id) : ∃ m ∈ nodes, m.id = id ∧ Precedes n m := by
  obtain ⟨c, hc, hid⟩ := List.mem_flatMap.mp hid
  rcases columns_eq h hn with he | ⟨he, -⟩
  · obtain ⟨⟨shift, column⟩, hcolumn, rfl⟩ := List.mem_map.mp (he ▸ hc)
    obtain ⟨m, hm, rfl⟩ := List.mem_map.mp hid
    obtain ⟨hmn, hlt, -⟩ := mem_of_column h hn hcolumn hm
    exact ⟨m, hmn, rfl, hlt⟩
  · rw [he, List.mem_singleton] at hc
    subst hc
    exact absurd hid List.not_mem_nil

/-- The room of the node with a given id. -/
def roomOf (nodes : List FlowNode) (id : String) : Nat :=
  (withId? nodes id).elim 0 (room nodes)

theorem roomOf_id (h : IsFlow nodes) {n : FlowNode} (hn : n ∈ nodes) :
    roomOf nodes n.id = room nodes n := by
  rw [roomOf, h.withId?_eq_some_iff.mpr ⟨hn, rfl⟩, Option.elim_some]

theorem ranked (h : IsFlow nodes) : Ranked nodes (nodes.map (·.id)) (roomOf nodes) where
  below_subset := by
    rw [List.forall_mem_map]
    intro n hn k hk
    obtain ⟨m, hm, rfl, -⟩ := mem_below h hn hk
    exact List.mem_map_of_mem hm
  below_lt := by
    rw [List.forall_mem_map]
    intro n hn k hk
    obtain ⟨m, hm, rfl, hlt⟩ := mem_below h hn hk
    rw [roomOf_id h hn, roomOf_id h hm]
    exact room_lt h hn hm hlt
  pos := by
    rw [List.forall_mem_map]
    intro n hn
    rw [roomOf_id h hn]
    exact Nat.sub_pos_of_lt (List.idxOf_lt_length_of_mem hn)
  le := by
    rw [List.forall_mem_map]
    intro n hn
    rw [roomOf_id h hn]
    exact Nat.sub_le ..

theorem unrolled (h : IsFlow nodes) : Unrolled nodes (nodes.map (·.id)) :=
  (ranked h).unrolled

theorem fullBox_eq (h : IsFlow nodes) {n : FlowNode} (hn : n ∈ nodes) :
    fullBox nodes n.id = .node n.id
      ((columns nodes n.id).map fun c => (c.1, c.2.map (fullBox nodes))) :=
  (unrolled h).box_eq n.id (List.mem_map_of_mem hn)

/-- The rows that a node takes with all that is below it. -/
def rowsOf (nodes : List FlowNode) (n : FlowNode) : Nat :=
  (fullBox nodes n.id).rows

theorem stacked_fullBox (column : List FlowNode) :
    Box.stacked ((column.map (·.id)).map (fullBox nodes)) = (column.map (rowsOf nodes)).sum := by
  rw [Box.stacked_eq_sum, List.map_map, List.map_map]
  rfl

/-- A node takes its own row and those of its tallest column. -/
theorem rowsOf_eq (h : IsFlow nodes) {n : FlowNode} (hn : n ∈ nodes) : rowsOf nodes n =
    1 + ((columnsBelow nodes n).map fun c => (c.2.map (rowsOf nodes)).sum).foldr max 0 := by
  rw [rowsOf, fullBox_eq h hn, Box.rows, Box.tallest_eq_foldr, List.map_map]
  rcases columns_eq h hn with he | ⟨he, he'⟩
  · rw [he, columnIds, List.map_map]
    simp only [Function.comp_def, stacked_fullBox]
  · rw [he, he']
    rfl

/-! Places, one step at a time. -/

/-- The nodes without a parent. -/
def rootNodes (nodes : List FlowNode) : List FlowNode :=
  nodes.filter (·.parent = none)

/-- A root stands below the roots before it; any other node stands in a column of a drawn node,
below the siblings before it. -/
inductive Stands (nodes : List FlowNode) : FlowNode → Position → Prop
  | root {before after : List FlowNode} {r : FlowNode} :
      rootNodes nodes = before ++ r :: after →
      Stands nodes r ⟨origin.x,
        origin.y + (before.map fun s => rowHeight * (rowsOf nodes s : Int) + gap).sum⟩
  | column {n m : FlowNode} {p : Position} {shift : Int} {before after : List FlowNode} :
      n ∈ nodes → n.isDrawn → Stands nodes n p →
      (shift, before ++ m :: after) ∈ columnsBelow nodes n →
      Stands nodes m ⟨p.x + shift, p.y + rowHeight + rowHeight * (before.map (rowsOf nodes)).sum⟩

theorem isDrawn_of_root (h : IsFlow nodes) {r : FlowNode} (hr : r ∈ rootNodes nodes) :
    r ∈ nodes ∧ r.isDrawn := by
  obtain ⟨hr, hp⟩ := List.mem_filter.mp hr
  refine ⟨hr, ?_⟩
  by_contra hd
  have hk : r.kind = .branch := by simpa [isDrawn] using hd
  obtain ⟨q, -, hpar, -⟩ := h.branch_parent r hr hk
  simp [hpar] at hp

theorem Stands.mem (h : IsFlow nodes) {n : FlowNode} {p : Position} (hs : Stands nodes n p) :
    n ∈ nodes ∧ n.isDrawn := by
  cases hs with
  | root he => exact isDrawn_of_root h (by rw [he]; simp)
  | column hn _ _ hc =>
    obtain ⟨hm, -, hd⟩ := mem_of_column h hn hc (List.mem_append_right _ (List.mem_cons_self ..))
    exact ⟨hm, hd⟩

theorem eq_of_split {l before before' after after' : List FlowNode} {m : FlowNode} (hl : l.Nodup)
    (he : l = before ++ m :: after) (he' : l = before' ++ m :: after') : before = before' := by
  rw [he, List.nodup_append, List.nodup_cons] at hl
  have hleft : m ∉ before := fun hm => hl.2.2 m hm m (List.mem_cons_self ..) rfl
  exact ((List.append_cons_inj_of_notMem hleft hl.2.1.1).mp (he.symm.trans he')).1

theorem nodup_nodes (h : IsFlow nodes) : nodes.Nodup :=
  h.nodup_ids.of_map _

/-- A node has at most one place. -/
theorem Stands.unique (h : IsFlow nodes) {n : FlowNode} {p p' : Position} (hs : Stands nodes n p)
    (hs' : Stands nodes n p') : p = p' := by
  have hroot {r k : FlowNode} {shift : Int} {column before after : List FlowNode}
      (he : rootNodes nodes = before ++ r :: after) (hk : k ∈ nodes)
      (hc : (shift, column) ∈ columnsBelow nodes k) (hr : r ∈ column) : False := by
    obtain ⟨q, -, rfl, -⟩ := exists_owner h hk hc
    have hp : r ∈ rootNodes nodes := by rw [he]; simp
    simp [rootNodes, (h.mem_childrenOf.mp hr).2] at hp
  have hself {before after : List FlowNode} {m : FlowNode} : m ∈ before ++ m :: after := by simp
  induction hs generalizing p' with
  | root he =>
    cases hs' with
    | root he' =>
      obtain rfl := eq_of_split ((nodup_nodes h).filter _) he he'
      rfl
    | column hk _ _ hc => exact (hroot he hk hc hself).elim
  | column hk hd _ hc ih =>
    cases hs' with
    | root he' => exact (hroot he' hk hc hself).elim
    | column hk' hd' hs' hc' =>
      obtain ⟨rfl, rfl, hcol⟩ := column_unique h hk hk' hd hd' hc hc' hself hself
      obtain rfl := ih hs'
      obtain ⟨q, -, he, -⟩ := exists_owner h hk hc
      obtain rfl := eq_of_split (h.nodup_children q.id) he.symm (he.symm.trans hcol)
      rfl

/-- Every drawn node has a place. -/
theorem exists_stands (h : IsFlow nodes) : ∀ n ∈ nodes, n.isDrawn → ∃ p, Stands nodes n p := by
  refine h.induction fun n hn ih hd => ?_
  cases hp : n.parent with
  | none =>
    have hr : n ∈ rootNodes nodes := List.mem_filter.mpr ⟨hn, by simpa using hp⟩
    obtain ⟨before, after, he⟩ := List.append_of_mem hr
    exact ⟨_, .root he⟩
  | some id =>
    obtain ⟨q, hq, rfl, -⟩ := h.parent_mem n hn id hp
    obtain ⟨k, hk, hkd, hlt, shift, column, hc, hnc⟩ := exists_column h hn hd hq hp
    obtain ⟨p, hs⟩ := ih k hk hlt hkd
    obtain ⟨before, after, rfl⟩ := List.append_of_mem hnc
    exact ⟨_, .column hk hkd hs hc⟩

/-! The placements are the places. -/

theorem map_eq_append_cons_iff {α β : Type} {f : α → β} {l : List α} {before after : List β}
    {b : β} : l.map f = before ++ b :: after ↔ ∃ before' x after', l = before' ++ x :: after' ∧
      before'.map f = before ∧ f x = b ∧ after'.map f = after := by
  constructor
  · intro h
    obtain ⟨before', rest, hl, hbefore, hrest⟩ := List.map_eq_append_iff.mp h
    obtain ⟨x, after', rfl, hx, hafter⟩ := List.map_eq_cons_iff.mp hrest
    exact ⟨before', x, after', hl, hbefore, hx, hafter⟩
  · rintro ⟨before', x, after', rfl, rfl, rfl, rfl⟩
    rw [List.map_append, List.map_cons]

/-- The boxes of the columns below a node. -/
theorem mem_columnBoxes (h : IsFlow nodes) {n : FlowNode} (hn : n ∈ nodes) {shift : Int}
    {before after : List Box} {b : Box} :
    (shift, before ++ b :: after) ∈
        (columns nodes n.id).map (fun (shift, ids) => (shift, ids.map (fullBox nodes))) ↔
      ∃ before' m after', (shift, before' ++ m :: after') ∈ columnsBelow nodes n ∧
        (before'.map (·.id)).map (fullBox nodes) = before ∧ fullBox nodes m.id = b ∧
        (after'.map (·.id)).map (fullBox nodes) = after := by
  rcases columns_eq h hn with he | ⟨he, he'⟩
  · rw [he, columnIds, List.map_map, List.mem_map]
    constructor
    · rintro ⟨⟨shift', column⟩, hc, heq⟩
      obtain ⟨rfl, hboxes⟩ := Prod.ext_iff.mp heq
      obtain ⟨ids, id, ids', hids, rfl, rfl, rfl⟩ := map_eq_append_cons_iff.mp hboxes
      obtain ⟨before', m, after', rfl, rfl, rfl, rfl⟩ := map_eq_append_cons_iff.mp hids
      exact ⟨before', m, after', hc, rfl, rfl, rfl⟩
    · rintro ⟨before', m, after', hc, rfl, rfl, rfl⟩
      exact ⟨_, hc, by simp⟩
  · simp [he, he']

theorem mem_place_fullBox (h : IsFlow nodes) {n : FlowNode} (hn : n ∈ nodes) {p : Position}
    {e : String × Position} : e ∈ (fullBox nodes n.id).place p ↔ e = (n.id, p) ∨
      ∃ shift before m after, (shift, before ++ m :: after) ∈ columnsBelow nodes n ∧
        e ∈ (fullBox nodes m.id).place
          ⟨p.x + shift, p.y + rowHeight + rowHeight * (before.map (rowsOf nodes)).sum⟩ := by
  rw [fullBox_eq h hn, Box.mem_place]
  refine or_congr_right (exists_congr fun shift => ?_)
  constructor
  · rintro ⟨_, _, _, hc, he⟩
    obtain ⟨before, m, after, hcolumn, rfl, rfl, rfl⟩ := (mem_columnBoxes h hn).mp hc
    rw [stacked_fullBox] at he
    exact ⟨before, m, after, hcolumn, he⟩
  · rintro ⟨before, m, after, hc, he⟩
    have hboxes := (mem_columnBoxes h hn).mpr ⟨before, m, after, hc, rfl, rfl, rfl⟩
    exact ⟨_, _, _, hboxes, by rwa [stacked_fullBox]⟩

theorem stands_of_mem_place (h : IsFlow nodes) {n : FlowNode} (hn : n ∈ nodes) {p : Position}
    (hs : Stands nodes n p) {id : String} {q : Position}
    (he : (id, q) ∈ (fullBox nodes n.id).place p) : ∃ m, m.id = id ∧ Stands nodes m q := by
  induction hroom : room nodes n using Nat.strongRecOn generalizing n p with
  | ind k ih =>
    subst hroom
    rcases (mem_place_fullBox h hn).mp he with he | ⟨shift, before, m, after, hc, he⟩
    · obtain ⟨rfl, rfl⟩ : id = n.id ∧ q = p := Prod.ext_iff.mp he
      exact ⟨n, rfl, hs⟩
    · have hmem : m ∈ before ++ m :: after := by simp
      obtain ⟨hm, hlt, -⟩ := mem_of_column h hn hc hmem
      exact ih _ (room_lt h hn hm hlt) hm (.column hn (hs.mem h).2 hs hc) he rfl

theorem rootsHeight_fullBox (nodes roots : List FlowNode) :
    Box.rootsHeight ((roots.map (·.id)).map (fullBox nodes)) =
      (roots.map fun s => rowHeight * (rowsOf nodes s : Int) + gap).sum := by
  rw [Box.rootsHeight, List.map_map, List.map_map]
  rfl

theorem roots_eq (h : IsFlow nodes) : roots nodes = (rootNodes nodes).map (·.id) := by
  refine congrArg _ (List.filter_congr fun n hn => ?_)
  rw [h.parentLink_eq hn]
  cases n.parent <;> rfl

theorem roots_subset (nodes : List FlowNode) : roots nodes ⊆ nodes.map (·.id) :=
  List.map_subset _ List.filter_sublist.subset

/-- Both passes over a flow come to their end. -/
theorem positions?_eq (h : IsFlow nodes) :
    positions? nodes = some (Box.placeRoots origin (boxes nodes)).reverse :=
  (unrolled h).positions?_eq (roots_subset nodes)

theorem placements_eq (h : IsFlow nodes) :
    placements nodes = Box.placeRoots origin (boxes nodes) := by
  rw [placements, positions?_eq h, Option.getD_some, List.reverse_reverse]

theorem mem_placements (h : IsFlow nodes) {e : String × Position} :
    e ∈ placements nodes ↔ ∃ before r after, rootNodes nodes = before ++ r :: after ∧
      e ∈ (fullBox nodes r.id).place ⟨origin.x,
        origin.y + (before.map fun s => rowHeight * (rowsOf nodes s : Int) + gap).sum⟩ := by
  rw [placements_eq h, Box.mem_placeRoots, boxes, roots_eq h]
  constructor
  · rintro ⟨_, _, _, heq, he⟩
    obtain ⟨ids, id, ids', hids, rfl, rfl, rfl⟩ := map_eq_append_cons_iff.mp heq
    obtain ⟨before, r, after, hr, rfl, rfl, rfl⟩ := map_eq_append_cons_iff.mp hids
    have hh := rootsHeight_fullBox nodes before
    exact ⟨before, r, after, hr, by rwa [← hh]⟩
  · rintro ⟨before, r, after, hr, he⟩
    refine ⟨(before.map (·.id)).map (fullBox nodes), fullBox nodes r.id,
      (after.map (·.id)).map (fullBox nodes), ?_, by rwa [rootsHeight_fullBox]⟩
    rw [hr, List.map_append, List.map_append]
    rfl

/-- What stands below a node is placed with it. -/
theorem place_subset (h : IsFlow nodes) {n : FlowNode} {p : Position} (hs : Stands nodes n p) :
    ∀ e ∈ (fullBox nodes n.id).place p, e ∈ placements nodes := by
  induction hs with
  | root hr => exact fun e he => (mem_placements h).mpr ⟨_, _, _, hr, he⟩
  | column hn _ _ hc ih =>
    exact fun e he => ih e ((mem_place_fullBox h hn).mpr (.inr ⟨_, _, _, _, hc, he⟩))

/-- The placements are the ids of the nodes with their places. -/
theorem mem_placements_iff (h : IsFlow nodes) {id : String} {p : Position} :
    (id, p) ∈ placements nodes ↔ ∃ n, n.id = id ∧ Stands nodes n p := by
  constructor
  · intro he
    obtain ⟨before, r, after, hr, he⟩ := (mem_placements h).mp he
    have hs : Stands nodes r _ := .root hr
    exact stands_of_mem_place h (hs.mem h).1 hs he
  · rintro ⟨n, rfl, hs⟩
    exact place_subset h hs _ ((mem_place_fullBox h (hs.mem h).1).mpr (.inl rfl))

theorem position?_eq_some_iff (h : IsFlow nodes) {id : String} {p : Position} :
    position? nodes id = some p ↔ ∃ n, n.id = id ∧ Stands nodes n p := by
  have hmem {q : Position} (hq : position? nodes id = some q) : (id, q) ∈ placements nodes := by
    obtain ⟨l₁, l₂, he, -⟩ := List.lookup_eq_some_iff.mp hq
    rw [← List.mem_reverse, he]
    simp
  constructor
  · exact fun hp => (mem_placements_iff h).mp (hmem hp)
  · rintro ⟨n, rfl, hs⟩
    cases hq : position? nodes n.id with
    | none =>
      have hn := List.lookup_eq_none_iff.mp hq
      have hin := List.mem_reverse.mpr ((mem_placements_iff h).mpr ⟨n, rfl, hs⟩)
      simpa using hn _ hin
    | some q =>
      obtain ⟨m, hid, hs'⟩ := (mem_placements_iff h).mp (hmem hq)
      obtain rfl := h.eq_of_id (hs'.mem h).1 (hs.mem h).1 hid
      rw [hs.unique h hs']

end Layout
end Flowchart
