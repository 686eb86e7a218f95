import Flowchart.Proofs.Diagram.LayoutLoops
import Mathlib.Algebra.BigOperators.Group.List.Basic
import Mathlib.Data.List.Nodup
import Mathlib.Data.List.Perm.Subperm
import Mathlib.Order.Bounds.Defs

/-! Which nodes of any list the layout comes to, when their ids tell them apart. However the others
are linked, the nodes that it comes to from the roots form a tree, so that both passes end. -/
namespace Flowchart

namespace FlowNode
variable {nodes : List FlowNode} {n c : FlowNode} {p : String}

theorem mem_childrenOf_iff : c ∈ childrenOf nodes p ↔ c ∈ nodes ∧ c.parentLink = some p := by
  rw [childrenOf, List.mem_filter, decide_eq_true_iff]

theorem parentLink_eq_none_iff : n.parentLink = none ↔ n.parent = none ∨ n.parent = some "" := by
  rw [parentLink, Option.filter_eq_none_iff]
  cases n.parent <;> simp

end FlowNode

namespace Box

mutual

/-- A box has one position for each of its ids. -/
theorem keys_place (p : Position) :
    (b : Box) → ((b.place p).map (·.1)).Perm b.postorder
  | node id columns => by
    rw [place, postorder, List.map_cons]
    exact ((keys_placeColumns _ columns).cons id).trans (List.perm_append_singleton id _).symm

theorem keys_placeColumns (top : Position) : (columns : List (Int × List Box)) →
    ((placeColumns top columns).map (·.1)).Perm (postorderColumns columns)
  | [] => .refl _
  | (_, boxes) :: columns => by
    rw [placeColumns, postorderColumns, List.map_append]
    exact List.perm_append_comm.trans
      ((keys_placeStack _ boxes).append (keys_placeColumns top columns))

theorem keys_placeStack (top : Position) :
    (bs : List Box) → ((placeStack top bs).map (·.1)).Perm (postorderAll bs)
  | [] => .refl _
  | b :: bs => by
    rw [placeStack, postorderAll, List.map_append]
    exact List.perm_append_comm.trans ((keys_place top b).append (keys_placeStack _ bs))

end

theorem keys_placeRoots (top : Position) (bs : List Box) :
    ((placeRoots top bs).map (·.1)).Perm (postorderAll bs) := by
  induction bs generalizing top with
  | nil => exact .refl _
  | cons b bs ih =>
    rw [placeRoots, postorderAll, List.map_append]
    exact (keys_place top b).append (ih _)

end Box

namespace Layout
open FlowNode
variable {nodes : List FlowNode} {id p q k : String}

/-- What the layout comes to: the roots and what is drawn below them, one step after the other. -/
inductive Reached (nodes : List FlowNode) : String → Prop
  | root {id : String} : id ∈ roots nodes → Reached nodes id
  | step {id k : String} : Reached nodes id → k ∈ below nodes id → Reached nodes k

/-- One id is drawn right below another one. -/
def IsBelow (nodes : List FlowNode) (p k : String) : Prop :=
  k ∈ below nodes p

theorem Reached.trans (h : Reached nodes p) (hpk : Relation.ReflTransGen (IsBelow nodes) p k) :
    Reached nodes k := by
  induction hpk with
  | refl => exact h
  | tail _ hk ih => exact .step ih hk

/-- A branch with the id `k` belongs to the node with the id `p`. -/
def IsArm (nodes : List FlowNode) (p k : String) : Prop :=
  ∃ b ∈ childrenOf nodes p, b.kind = .branch ∧ b.id = k

theorem mem_childIds : k ∈ childIds nodes p ↔ ∃ c ∈ nodes, c.parentLink = some p ∧ c.id = k := by
  rw [childIds, List.mem_map]
  simp only [mem_childrenOf_iff, and_assoc]

theorem mem_roots : k ∈ roots nodes ↔ ∃ n ∈ nodes, n.parentLink = none ∧ n.id = k := by
  rw [roots, List.mem_map]
  simp only [List.mem_filter, Option.isNone_iff_eq_none, and_assoc]

theorem IsArm.mem_childIds (h : IsArm nodes p k) : k ∈ childIds nodes p := by
  obtain ⟨b, hb, -, rfl⟩ := h
  exact List.mem_map_of_mem hb

/-- In an order an id stands as often as among the ids at its start and below the ids of the order
together. -/
theorem Unrolled.count_order {known : List String} (h : Unrolled nodes known) (ids : List String)
    (hids : ids ⊆ known) (k : String) : (order nodes ids).count k =
      ids.count k + ((order nodes ids).map fun id => (below nodes id).count k).sum := by
  refine h.induction ids hids rfl fun ids id hid hfront hbelow => ?_
  rw [h.order_snoc ids hid]
  simp only [List.count_append, List.map_append, List.sum_append, List.map_singleton,
    List.sum_singleton, hfront, hbelow]
  omega

private theorem sum_map_le_count {f : String → Nat} {l : List String} (m : String)
    (h : ∀ x ∈ l, f x ≤ if x = m then 1 else 0) : (l.map f).sum ≤ l.count m := by
  induction l with
  | nil => exact Nat.le_refl 0
  | cons x l ih =>
    obtain ⟨hx, hl⟩ := List.forall_mem_cons.mp h
    rw [List.map_cons, List.sum_cons, List.count_cons, Nat.add_comm]
    simp only [beq_iff_eq]
    exact Nat.add_le_add (ih hl) hx

/-! Ranks by what is below an id. -/

open Classical in
/-- How many of the nodes are at an id or below it. -/
noncomputable def extent (nodes : List FlowNode) (id : String) : Nat :=
  (nodes.filter fun n => Relation.ReflTransGen (IsBelow nodes) id n.id).length

theorem extent_pos (hid : id ∈ nodes.map (·.id)) : 0 < extent nodes id := by
  classical
  obtain ⟨n, hn, rfl⟩ := List.mem_map.mp hid
  exact List.length_pos_of_mem (List.mem_filter.mpr ⟨hn, decide_eq_true .refl⟩)

theorem extent_le (nodes : List FlowNode) (id : String) : extent nodes id ≤ nodes.length :=
  List.length_filter_le ..

theorem extent_lt (hid : id ∈ nodes.map (·.id)) (hk : k ∈ below nodes id)
    (hacyclic : ¬ Relation.TransGen (IsBelow nodes) id id) : extent nodes k < extent nodes id := by
  classical
  obtain ⟨n, hn, rfl⟩ := List.mem_map.mp hid
  -- The node is at its own id, but not below what is below it.
  have hself : ¬ Relation.ReflTransGen (IsBelow nodes) k n.id :=
    fun hup => hacyclic (.head' hk hup)
  exact length_filter_lt (fun _ _ hm => .head hk hm) hn .refl hself

open Classical in
/-- The ids that the layout comes to, in the order of the nodes. -/
noncomputable def reachedIds (nodes : List FlowNode) : List String :=
  (nodes.map (·.id)).filter fun id => Reached nodes id

private theorem flatMap_mapIdx {α β γ : Type} {f : Nat → α → β} {g : β → List γ} {h : α → List γ}
    (hfg : ∀ index a, g (f index a) = h a) (l : List α) : (l.mapIdx f).flatMap g = l.flatMap h := by
  induction l generalizing f with
  | nil => rfl
  | cons a l ih =>
    rw [List.mapIdx_cons, List.flatMap_cons, List.flatMap_cons, hfg,
      ih fun index a => hfg (index + 1) a]

section
variable (hids : (nodes.map (·.id)).Nodup)
include hids

/-! Each node has one parent at most, and roots have none. -/

theorem eq_of_id {m n : FlowNode} (hm : m ∈ nodes) (hn : n ∈ nodes) (he : m.id = n.id) : m = n :=
  List.inj_on_of_nodup_map hids hm hn he

theorem parent_unique (hp : k ∈ childIds nodes p) (hq : k ∈ childIds nodes q) : p = q := by
  obtain ⟨c, hc, hcp, rfl⟩ := mem_childIds.mp hp
  obtain ⟨d, hd, hdq, he⟩ := mem_childIds.mp hq
  obtain rfl := eq_of_id hids hd hc he
  exact Option.some.inj (hcp.symm.trans hdq)

theorem notMem_roots (hk : k ∈ childIds nodes p) : k ∉ roots nodes := by
  intro hroot
  obtain ⟨c, hc, hp, rfl⟩ := mem_childIds.mp hk
  obtain ⟨r, hr, hnone, he⟩ := mem_roots.mp hroot
  obtain rfl := eq_of_id hids hr hc he
  rw [hnone] at hp
  cases hp

theorem nodup_childIds (p : String) : (childIds nodes p).Nodup :=
  hids.sublist (List.filter_sublist.map _)

/-- What is drawn right below a node are its children, or those of its branches. -/
theorem below_eq (id : String) : below nodes id =
    match (childrenOf nodes id).filter (·.kind = .branch) with
    | [] => childIds nodes id
    | arms => arms.flatMap fun b => childIds nodes b.id := by
  have hfilter : (childIds nodes id).filter (isBranch nodes) =
      ((childrenOf nodes id).filter (·.kind = .branch)).map (·.id) := by
    rw [childIds, List.filter_map]
    refine congrArg _ (List.filter_congr fun c hc => ?_)
    exact isBranch_eq hids (mem_childrenOf_iff.mp hc).1
  rw [below, columns, hfilter]
  cases (childrenOf nodes id).filter (·.kind = .branch) with
  | nil => exact List.append_nil _
  | cons first rest =>
    have hflat := flatMap_mapIdx
      (f := fun index arm => (armShift nodes index arm, childIds nodes arm)) (g := Prod.snd)
      (h := childIds nodes) (fun _ _ => rfl) ((first :: rest).map (·.id))
    rw [List.flatMap_map] at hflat
    exact hflat

theorem mem_below_iff : k ∈ below nodes id ↔
    (∀ b, ¬ IsArm nodes id b) ∧ k ∈ childIds nodes id ∨
      ∃ b, IsArm nodes id b ∧ k ∈ childIds nodes b := by
  rw [below_eq hids]
  split
  · rename_i hnil
    have hnone (b : String) : ¬ IsArm nodes id b := by
      rintro ⟨c, hc, hk, -⟩
      exact absurd (decide_eq_true hk) (List.filter_eq_nil_iff.mp hnil c hc)
    simp [hnone]
  · rename_i hcons
    constructor
    · intro hk
      obtain ⟨b, hb, hk⟩ := List.mem_flatMap.mp hk
      obtain ⟨hb, hkind⟩ := List.mem_filter.mp hb
      exact .inr ⟨b.id, ⟨b, hb, of_decide_eq_true hkind, rfl⟩, hk⟩
    · rintro (⟨hnone, -⟩ | ⟨_, ⟨b, hb, hkind, rfl⟩, hk⟩)
      · refine absurd (List.filter_eq_nil_iff.mpr fun b hb hkind => ?_) hcons
        exact hnone b.id ⟨b, hb, of_decide_eq_true hkind, rfl⟩
      · exact List.mem_flatMap.mpr ⟨b, List.mem_filter.mpr ⟨hb, decide_eq_true hkind⟩, hk⟩

theorem exists_parent_of_below (hk : k ∈ below nodes id) : ∃ p, k ∈ childIds nodes p := by
  rcases (mem_below_iff hids).mp hk with ⟨-, hk⟩ | ⟨b, -, hk⟩
  · exact ⟨id, hk⟩
  · exact ⟨b, hk⟩

theorem nodup_below (id : String) : (below nodes id).Nodup := by
  rw [below_eq hids]
  split
  · exact nodup_childIds hids id
  · rw [List.nodup_flatMap]
    refine ⟨fun b _ => nodup_childIds hids b.id, ?_⟩
    have harms : ((childrenOf nodes id).filter (·.kind = .branch)).Pairwise (·.id ≠ ·.id) :=
      (List.pairwise_map.mp hids).sublist (List.filter_sublist.trans List.filter_sublist)
    refine harms.imp fun {b b'} hne k hk hk' => hne ?_
    exact parent_unique hids hk hk'

/-! What the layout comes to, it comes to from one side only. -/

theorem Reached.mem_ids (h : Reached nodes k) : k ∈ nodes.map (·.id) := by
  cases h with
  | root hk => exact List.map_subset _ List.filter_sublist.subset hk
  | step _ hk =>
    obtain ⟨p, hk⟩ := exists_parent_of_below hids hk
    exact List.map_subset _ List.filter_sublist.subset hk

theorem mem_reachedIds : id ∈ reachedIds nodes ↔ Reached nodes id := by
  simp only [reachedIds, List.mem_filter, decide_eq_true_eq]
  exact and_iff_right_of_imp fun h => h.mem_ids hids

/-- A branch is reached through a branch that its parent is itself. -/
theorem Reached.exists_of_isArm (h : Reached nodes k) (harm : IsArm nodes p k) :
    ∃ m, Reached nodes m ∧ IsArm nodes m p := by
  cases h with
  | root hk => exact absurd hk (notMem_roots hids harm.mem_childIds)
  | @step m _ hm hk =>
    rcases (mem_below_iff hids).mp hk with ⟨hnone, hk⟩ | ⟨b, hb, hk⟩
    · obtain rfl := parent_unique hids hk harm.mem_childIds
      exact absurd harm (hnone k)
    · obtain rfl := parent_unique hids hk harm.mem_childIds
      exact ⟨m, hm, hb⟩

/-- A branch and its parent are not both reached. -/
theorem Reached.not_of_isArm (h : Reached nodes k) (harm : IsArm nodes p k) :
    ¬ Reached nodes p := by
  induction h generalizing p with
  | root hk => exact absurd hk (notMem_roots hids harm.mem_childIds)
  | @step m k hm hk ih =>
    intro hp
    obtain ⟨hnone, hk⟩ | ⟨b, hb, hk⟩ := (mem_below_iff hids).mp hk
    · obtain rfl := parent_unique hids hk harm.mem_childIds
      exact hnone k harm
    -- The parent is a branch of `m`, so that it is reached through a branch that `m` is itself.
    · obtain rfl := parent_unique hids hk harm.mem_childIds
      obtain ⟨m', hm', harm'⟩ := hp.exists_of_isArm hids hb
      exact ih harm' hm'

theorem below_unique (hp : Reached nodes p) (hq : Reached nodes q) (hkp : k ∈ below nodes p)
    (hkq : k ∈ below nodes q) : p = q := by
  rcases (mem_below_iff hids).mp hkp with ⟨-, hkp⟩ | ⟨b, hb, hkp⟩
  · rcases (mem_below_iff hids).mp hkq with ⟨-, hkq⟩ | ⟨c, hc, hkq⟩
    · exact parent_unique hids hkp hkq
    · obtain rfl := parent_unique hids hkp hkq
      exact absurd hq (hp.not_of_isArm hids hc)
  · rcases (mem_below_iff hids).mp hkq with ⟨-, hkq⟩ | ⟨c, hc, hkq⟩
    · obtain rfl := parent_unique hids hkp hkq
      exact absurd hp (hq.not_of_isArm hids hb)
    · obtain rfl := parent_unique hids hkp hkq
      exact parent_unique hids hb.mem_childIds hc.mem_childIds

theorem not_mem_below_self (hk : k ∈ roots nodes) (id : String) : k ∉ below nodes id := by
  intro hbelow
  obtain ⟨p, hp⟩ := exists_parent_of_below hids hbelow
  exact notMem_roots hids hp hk

/-- Nothing that is reached is below itself. -/
theorem Reached.acyclic (h : Reached nodes k) : ¬ Relation.TransGen (IsBelow nodes) k k := by
  induction h with
  | @root k hk =>
    intro hcycle
    obtain ⟨m, -, hm⟩ := Relation.TransGen.tail'_iff.mp hcycle
    exact not_mem_below_self hids hk m hm
  | @step p k hp hk ih =>
    intro hcycle
    obtain ⟨m, hkm, hm⟩ := Relation.TransGen.tail'_iff.mp hcycle
    have hreached : Reached nodes m := (Reached.step hp hk).trans hkm
    obtain rfl := below_unique hids hreached hp hm hk
    exact ih (.head' hk hkm)

theorem ranked_reachedIds : Ranked nodes (reachedIds nodes) (extent nodes) where
  below_subset id hid k hk := by
    exact (mem_reachedIds hids).mpr (.step ((mem_reachedIds hids).mp hid) hk)
  below_lt id hid k hk := by
    have h := (mem_reachedIds hids).mp hid
    exact extent_lt (h.mem_ids hids) hk (h.acyclic hids)
  pos id hid := extent_pos (((mem_reachedIds hids).mp hid).mem_ids hids)
  le id _ := extent_le nodes id

theorem unrolled_reachedIds : Unrolled nodes (reachedIds nodes) :=
  (ranked_reachedIds hids).unrolled

theorem roots_subset_reachedIds : roots nodes ⊆ reachedIds nodes :=
  fun _ hid => (mem_reachedIds hids).mpr (.root hid)

/-- The first pass visits just what is reached. -/
theorem mem_order_iff : k ∈ order nodes (roots nodes) ↔ Reached nodes k := by
  have hroots := roots_subset_reachedIds hids
  have horder := (unrolled_reachedIds hids).order_unrolled (roots nodes) hroots
  constructor
  · exact fun hk => (mem_reachedIds hids).mp (horder.1 hk)
  · intro hk
    induction hk with
    | root hk => exact (unrolled_reachedIds hids).mem_order hroots hk
    | step _ hk ih => exact horder.2 _ ih hk

theorem nodup_order : (order nodes (roots nodes)).Nodup := by
  have hcount := (unrolled_reachedIds hids).count_order (roots nodes) (roots_subset_reachedIds hids)
  refine List.nodup_iff_count_le_one.mpr fun k => ?_
  by_cases hk : k ∈ order nodes (roots nodes)
  · rw [mem_order_iff hids] at hk
    induction hk with
    | @root k hk =>
      have hroots : (roots nodes).Nodup := hids.sublist (List.filter_sublist.map _)
      have hbelow : ((order nodes (roots nodes)).map fun id => (below nodes id).count k).sum = 0 :=
        List.sum_eq_zero (List.forall_mem_map.mpr fun id _ =>
          List.count_eq_zero.mpr (not_mem_below_self hids hk id))
      rw [hcount, hbelow, Nat.add_zero]
      exact List.nodup_iff_count_le_one.mp hroots k
    | @step m k hm hk ih =>
      obtain ⟨p, hp⟩ := exists_parent_of_below hids hk
      have hroot : (roots nodes).count k = 0 := List.count_eq_zero.mpr (notMem_roots hids hp)
      have hbelow : ∀ id ∈ order nodes (roots nodes),
          (below nodes id).count k ≤ if id = m then 1 else 0 := by
        intro id hid
        split_ifs with he
        · exact List.nodup_iff_count_le_one.mp (nodup_below hids id) k
        · refine (List.count_eq_zero.mpr fun hk' => he ?_).le
          exact below_unique hids ((mem_order_iff hids).mp hid) hm hk' hk
      rw [hcount, hroot, Nat.zero_add]
      exact (sum_map_le_count m hbelow).trans ih
  · exact (List.count_eq_zero.mpr hk).le.trans (Nat.zero_le 1)

theorem length_order_le : (order nodes (roots nodes)).length ≤ nodes.length := by
  have hsub : order nodes (roots nodes) ⊆ nodes.map (·.id) :=
    fun k hk => ((mem_order_iff hids).mp hk).mem_ids hids
  rw [← List.length_map (f := fun n : FlowNode => n.id)]
  exact ((nodup_order hids).subperm hsub).length_le

/-- The ids with a position are the visited ones, in another order. -/
theorem keys_placements : ((placements nodes).map (·.1)).Perm (order nodes (roots nodes)) := by
  have hpositions := (unrolled_reachedIds hids).positions?_eq (roots_subset_reachedIds hids)
  have horder : order nodes (roots nodes) = Box.postorderAll (boxes nodes) := by
    rw [Box.postorderAll_eq, boxes, List.flatMap_map]
    rfl
  rw [placements, hpositions, Option.getD_some, List.reverse_reverse, horder]
  exact Box.keys_placeRoots origin (boxes nodes)

theorem isSome_position?_iff : (position? nodes k).isSome ↔ Reached nodes k := by
  rw [← mem_order_iff hids, ← (keys_placements hids).mem_iff, position?, List.lookup_isSome_iff,
    List.mem_map]
  simp only [List.mem_reverse, beq_iff_eq, @eq_comm _ k]

end

/-- Some ids among which are those of the nodes without a parent, or with an empty one, and with
each node its children, if none of them is a branch, or else the children of its branches. -/
structure Settled (nodes : List FlowNode) (ids : Set String) : Prop where
  root : ∀ n ∈ nodes, n.parent = none ∨ n.parent = some "" → n.id ∈ ids
  children : ∀ n ∈ nodes, n.id ∈ ids → (∀ c ∈ childrenOf nodes n.id, c.kind ≠ .branch) →
    ∀ c ∈ childrenOf nodes n.id, c.id ∈ ids
  arms : ∀ n ∈ nodes, n.id ∈ ids → ∀ b ∈ childrenOf nodes n.id, b.kind = .branch →
    ∀ c ∈ childrenOf nodes b.id, c.id ∈ ids

section
variable (hids : (nodes.map (·.id)).Nodup)
include hids

theorem settled_reached : Settled nodes {id | Reached nodes id} where
  root n hn hp := .root (mem_roots.mpr ⟨n, hn, parentLink_eq_none_iff.mpr hp, rfl⟩)
  children n _ hreached hnone c hc := by
    refine Reached.step hreached ((mem_below_iff hids).mpr (.inl ⟨?_, List.mem_map_of_mem hc⟩))
    rintro _ ⟨b, hb, hkind, rfl⟩
    exact hnone b hb hkind
  arms n _ hreached b hb hkind c hc :=
    Reached.step hreached ((mem_below_iff hids).mpr
      (.inr ⟨b.id, ⟨b, hb, hkind, rfl⟩, List.mem_map_of_mem hc⟩))

theorem Settled.mem_of_reached {ids : Set String} (h : Settled nodes ids) (hk : Reached nodes k) :
    k ∈ ids := by
  induction hk with
  | root hk =>
    obtain ⟨n, hn, hp, rfl⟩ := mem_roots.mp hk
    exact h.root n hn (parentLink_eq_none_iff.mp hp)
  | @step id k hid hk ih =>
    obtain ⟨n, hn, rfl⟩ := List.mem_map.mp (hid.mem_ids hids)
    rcases (mem_below_iff hids).mp hk with ⟨hnone, hk⟩ | ⟨_, ⟨b, hb, hkind, rfl⟩, hk⟩
    · obtain ⟨c, hc, rfl⟩ := List.mem_map.mp hk
      exact h.children n hn ih (fun b hb hkind => hnone b.id ⟨b, hb, hkind, rfl⟩) c hc
    · obtain ⟨c, hc, rfl⟩ := List.mem_map.mp hk
      exact h.arms n hn ih b hb hkind c hc

end
end Layout

open FlowNode Layout

/-- Nodes that their ids tell apart have a layout, whatever parents they name. Both passes end,
after no more rounds than there are nodes, and no node or height that they look up is missing. No id
is placed twice, and those placed are the least that hold the roots and what is drawn below them. -/
theorem placements_least {nodes : List FlowNode} (hids : (nodes.map (·.id)).Nodup) :
    (positions? nodes).isSome ∧ rounds nodes (roots nodes) ≤ nodes.length ∧
      (∀ id, ∀ k ∈ childIds nodes id, (withId? nodes k).isSome) ∧
      ((placements nodes).map (·.1)).Nodup ∧
      IsLeast {ids | Settled nodes ids} {id | (position? nodes id).isSome} := by
  have hplaced : {id | (position? nodes id).isSome} = {id | Reached nodes id} :=
    Set.ext fun k => isSome_position?_iff hids
  refine ⟨?_, ?_, fun id k hk => ?_, ?_, ?_⟩
  · rw [(unrolled_reachedIds hids).positions?_eq (roots_subset_reachedIds hids)]
    rfl
  · rw [← length_order]
    exact length_order_le hids
  · obtain ⟨c, hc, -, rfl⟩ := mem_childIds.mp hk
    rw [(withId?_eq_some_iff_of_nodup hids).mpr ⟨hc, rfl⟩]
    rfl
  · exact (keys_placements hids).nodup_iff.mpr (nodup_order hids)
  · rw [hplaced]
    exact ⟨settled_reached hids, fun ids h k hk => Settled.mem_of_reached hids h hk⟩

/-- Nodes with a parent that is itself, is missing or comes later, with parents in a circle, with a
sibling beside a branch and with branches below one another. -/
def tangledNodes : List FlowNode :=
  let node (id : String) (kind : NodeKind) (parent : Option String) : FlowNode :=
    { (default : FlowNode) with id, kind, parent }
  [node "c" .genericCall (some "f"), node "f" .function none, node "i" .condition (some "f"),
    node "t" .branch (some "i"), node "x" .branch (some "t"), node "e" .branch (some "x"),
    node "z" .returnStmt (some "e"), node "y" .genericCall (some "i"), node "s" .loop (some "s"),
    node "a" .loop (some "b"), node "b" .loop (some "a"), node "o" .throwStmt (some "gone"),
    node "" .tryStmt (some "")]

theorem placements_least_tangledNodes :
    (tangledNodes.map (·.id)).Nodup ∧
      (placements tangledNodes).map (·.1) = ["f", "i", "x", "z", "c", ""] ∧
      (positions? tangledNodes).isSome ∧
      rounds tangledNodes (roots tangledNodes) ≤ tangledNodes.length ∧
      (∀ id, ∀ k ∈ childIds tangledNodes id, (withId? tangledNodes k).isSome) ∧
      ((placements tangledNodes).map (·.1)).Nodup ∧
      IsLeast {ids | Settled tangledNodes ids} {id | (position? tangledNodes id).isSome} := by
  have hids : (tangledNodes.map (·.id)).Nodup := by decide
  exact ⟨hids, by decide +kernel, placements_least hids⟩

end Flowchart
