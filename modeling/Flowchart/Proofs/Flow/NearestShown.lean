import Flowchart.Flow.View
import Flowchart.Proofs.Flow.Forest
import Mathlib.Data.List.Forall2

/-! The logic view of any linked nodes, in whatever order they come: each shown node moves to the
nearest shown one above it, so that the shown nodes stand above one another as before. -/
namespace Flowchart.FlowNode

/-- Nodes that their ids tell apart, none of which stands above itself. Parents may be missing or
come after their children. -/
structure Linked (nodes : List FlowNode) : Prop where
  nodup_ids : (nodes.map (·.id)).Nodup
  id_ne_empty : ∀ n ∈ nodes, n.id ≠ ""
  acyclic : ∀ n ∈ nodes, ¬ Ancestor nodes n.id n.id

/-- An id is that of a node, or the id of one above that node. -/
abbrev AtOrAbove (nodes : List FlowNode) : String → String → Prop :=
  Relation.ReflTransGen (IsParent nodes)

/-- Of the shown nodes above `id` the nearest one: any other one is above it, too. -/
structure IsNearestShown (nodes : List FlowNode) (a : FlowNode) (id : String) : Prop where
  mem : a ∈ nodes
  shown : a.inLogic
  above : Ancestor nodes a.id id
  nearest : ∀ b ∈ nodes, b.inLogic → Ancestor nodes b.id id → b = a ∨ Ancestor nodes b.id a.id

/-- `m` is `n` below the nearest shown node above it, or without a parent if there is none. -/
def MovesUp (nodes : List FlowNode) (n m : FlowNode) : Prop :=
  (∃ a, IsNearestShown nodes a n.id ∧ m = { n with parent := some a.id }) ∨
    (∀ a ∈ nodes, a.inLogic → ¬ Ancestor nodes a.id n.id) ∧ m = { n with parent := none }

/-- The search for a kept node from an id upwards, with as many rounds as it takes. It ends at the
first kept node, or where there is nothing further up. -/
inductive Climbs (nodes : List FlowNode) (keep : String → Bool) : String → Option String → Prop
  | lost {id : String} (hid : withId? nodes id = none) : Climbs nodes keep id none
  | found {id : String} {n : FlowNode} (hid : withId? nodes id = some n) (hkeep : keep n.id) :
    Climbs nodes keep id (some n.id)
  | ended {id : String} {n : FlowNode} (hid : withId? nodes id = some n)
    (hkeep : keep n.id = false) (hlink : n.parentLink = none) : Climbs nodes keep id none
  | onward {id p : String} {n : FlowNode} {r : Option String} (hid : withId? nodes id = some n)
    (hkeep : keep n.id = false) (hlink : n.parentLink = some p) (hrest : Climbs nodes keep p r) :
    Climbs nodes keep id r

/-- What a search from `id` is to end with: the nearest kept id, or nothing if none is kept. -/
inductive Finds (nodes : List FlowNode) (keep : String → Bool) (id : String) : Option String → Prop
  | nearest {a : FlowNode} (mem : a ∈ nodes) (kept : keep a.id) (up : AtOrAbove nodes a.id id)
    (first : ∀ b ∈ nodes, keep b.id → AtOrAbove nodes b.id id → AtOrAbove nodes b.id a.id) :
    Finds nodes keep id (some a.id)
  | nothing (absent : ∀ b ∈ nodes, keep b.id → ¬ AtOrAbove nodes b.id id) :
    Finds nodes keep id none

def isShownId (nodes : List FlowNode) (id : String) : Bool :=
  (nodes.filter (·.inLogic)).any (·.id = id)

/-- A shown node as the logic view has it. -/
def raised (nodes : List FlowNode) (n : FlowNode) : FlowNode :=
  match n.parent with
  | none => n
  | some p =>
    if isShownId nodes p then n
    else { n with parent := climb nodes (isShownId nodes) nodes.length p }

theorem logicView_eq_map (nodes : List FlowNode) :
    logicView nodes = (nodes.filter (·.inLogic)).map (raised nodes) :=
  rfl

variable {nodes : List FlowNode} {m n : FlowNode} {id p : String}

theorem mem_logicView : m ∈ logicView nodes ↔ ∃ n ∈ nodes, n.inLogic ∧ raised nodes n = m := by
  rw [logicView_eq_map, List.mem_map]
  simp only [List.mem_filter, and_assoc]

theorem exists_raised_eq (nodes : List FlowNode) (n : FlowNode) :
    ∃ r, raised nodes n = { n with parent := r } := by
  unfold raised
  split
  · exact ⟨n.parent, rfl⟩
  · split_ifs
    · exact ⟨n.parent, rfl⟩
    · exact ⟨_, rfl⟩

theorem id_raised (nodes : List FlowNode) (n : FlowNode) : (raised nodes n).id = n.id := by
  obtain ⟨r, h⟩ := exists_raised_eq nodes n
  rw [h]

theorem inLogic_raised (nodes : List FlowNode) (n : FlowNode) :
    (raised nodes n).inLogic = n.inLogic := by
  obtain ⟨r, h⟩ := exists_raised_eq nodes n
  rw [h]
  rfl

open Classical in
/-- How many of the nodes are at an id or above it. -/
noncomputable def depth (nodes : List FlowNode) (id : String) : Nat :=
  (nodes.filter fun n => AtOrAbove nodes n.id id).length

theorem depth_le (nodes : List FlowNode) (id : String) : depth nodes id ≤ nodes.length :=
  List.length_filter_le ..

theorem depth_pos (hn : n ∈ nodes) : 0 < depth nodes n.id := by
  classical
  exact List.length_pos_of_mem (List.mem_filter.mpr ⟨hn, decide_eq_true .refl⟩)

namespace Linked

theorem eq_of_id (h : Linked nodes) (hm : m ∈ nodes) (hn : n ∈ nodes) (he : m.id = n.id) : m = n :=
  List.inj_on_of_nodup_map h.nodup_ids hm hn he

theorem of_rank (rank : String → Nat) (hids : (nodes.map (·.id)).Nodup)
    (hempty : ∀ n ∈ nodes, n.id ≠ "") (hup : ∀ n ∈ nodes, ∀ p ∈ n.parent, rank p < rank n.id) :
    Linked nodes := by
  have hlt : ∀ p c, IsParent nodes p c → rank p < rank c := by
    rintro p _ ⟨n, hn, rfl, hp⟩
    exact hup n hn p hp
  refine ⟨hids, hempty, fun n _ hcycle => ?_⟩
  have hself := hcycle.lift rank hlt
  rw [Relation.transGen_eq_self] at hself
  exact Nat.lt_irrefl _ hself

theorem withId?_iff (h : Linked nodes) : withId? nodes id = some n ↔ n ∈ nodes ∧ n.id = id :=
  withId?_eq_some_iff_of_nodup h.nodup_ids

theorem withId?_eq_none (h : Linked nodes) (hid : withId? nodes id = none) :
    ∀ n ∈ nodes, n.id ≠ id := by
  intro n hn he
  rw [h.withId?_iff.mpr ⟨hn, he⟩] at hid
  cases hid

theorem isShownId_iff (h : Linked nodes) (hn : n ∈ nodes) : isShownId nodes n.id ↔ n.inLogic := by
  simp only [isShownId, List.any_eq_true, List.mem_filter, decide_eq_true_eq]
  constructor
  · rintro ⟨a, ⟨ha, hshown⟩, he⟩
    exact h.eq_of_id ha hn he ▸ hshown
  · exact fun hshown => ⟨n, ⟨hn, hshown⟩, rfl⟩

theorem ancestor_iff_parent (h : Linked nodes) (hn : n ∈ nodes) :
    Ancestor nodes id n.id ↔ ∃ p, n.parent = some p ∧ AtOrAbove nodes id p := by
  rw [Ancestor, Relation.TransGen.tail'_iff]
  constructor
  · rintro ⟨p, hup, c, hc, hid, hp⟩
    exact ⟨p, h.eq_of_id hc hn hid ▸ hp, hup⟩
  · rintro ⟨p, hp, hup⟩
    exact ⟨p, hup, n, hn, rfl, hp⟩

/-! The way up from an id passes each node at most once. -/

theorem depth_lt (h : Linked nodes) (hn : n ∈ nodes) (hup : Ancestor nodes id n.id) :
    depth nodes id < depth nodes n.id := by
  classical
  -- The node itself is at its own id, but not above itself.
  have hself : ¬ AtOrAbove nodes n.id id := fun ha => h.acyclic n hn (.trans_right ha hup)
  exact length_filter_lt (fun a _ ha => ha.trans hup.to_reflTransGen) hn .refl hself

theorem induction (h : Linked nodes) {P : FlowNode → Prop}
    (step : ∀ n ∈ nodes, (∀ a ∈ nodes, Ancestor nodes a.id n.id → P a) → P n) :
    ∀ n ∈ nodes, P n := by
  intro n hn
  induction hk : depth nodes n.id using Nat.strongRecOn generalizing n with
  | ind k ih =>
    subst hk
    exact step n hn fun a ha hup => ih _ (h.depth_lt hn hup) a ha rfl

/-- As many rounds as there are nodes are enough for a search to end. -/
theorem climbs_climb (h : Linked nodes) {keep : String → Bool} {steps : Nat}
    (hle : depth nodes id ≤ steps) : Climbs nodes keep id (climb nodes keep steps id) := by
  induction steps generalizing id with
  | zero =>
    refine .lost (Option.eq_none_iff_forall_ne_some.mpr fun n hid => ?_)
    obtain ⟨hn, rfl⟩ := h.withId?_iff.mp hid
    exact Nat.not_succ_le_zero _ (Nat.le_trans (depth_pos hn) hle)
  | succ steps ih =>
    cases hid : withId? nodes id with
    | none =>
      simp only [climb, hid]
      exact .lost hid
    | some n =>
      obtain ⟨hn, rfl⟩ := h.withId?_iff.mp hid
      simp only [climb, hid]
      split_ifs with hkeep
      · exact .found hid hkeep
      · rw [Bool.not_eq_true] at hkeep
        cases hlink : n.parentLink with
        | none => exact .ended hid hkeep hlink
        | some p =>
          have hup : Ancestor nodes p n.id :=
            .single ⟨n, hn, rfl, (Option.filter_eq_some_iff.mp hlink).1⟩
          have hlt := h.depth_lt hn hup
          exact .onward hid hkeep hlink (@ih p (by omega))

/-! What a search ends with is what it is to find. -/

theorem atOrAbove_iff (h : Linked nodes) (hm : m ∈ nodes) (hn : n ∈ nodes) :
    AtOrAbove nodes m.id n.id ↔ m = n ∨ ∃ p, n.parentLink = some p ∧ AtOrAbove nodes m.id p := by
  have hlink (p : String) (hup : AtOrAbove nodes m.id p) : n.parent = some p ↔
      n.parentLink = some p := by
    -- No node is at an empty id, or above one.
    have hp : p ≠ "" := by
      rintro rfl
      rcases Relation.ReflTransGen.cases_tail hup with he | ⟨c, -, d, hd, hid, -⟩
      · exact h.id_ne_empty m hm he.symm
      · exact h.id_ne_empty d hd hid
    rw [parentLink, Option.filter_eq_some_iff]
    exact (and_iff_left (by simpa using hp)).symm
  rw [AtOrAbove, Relation.reflTransGen_iff_eq_or_transGen]
  refine or_congr ⟨fun he => h.eq_of_id hm hn he.symm, fun he => he ▸ rfl⟩ ?_
  exact (h.ancestor_iff_parent hn).trans
    (exists_congr fun p => and_congr_left fun hup => hlink p hup)

theorem finds_of_climbs (h : Linked nodes) {keep : String → Bool} {r : Option String}
    (hc : Climbs nodes keep id r) : Finds nodes keep id r := by
  induction hc with
  | lost hid =>
    refine .nothing fun b hb _ hup => ?_
    rcases Relation.ReflTransGen.cases_tail hup with he | ⟨c, -, d, hd, he, -⟩
    · exact h.withId?_eq_none hid b hb he.symm
    · exact h.withId?_eq_none hid d hd he
  | found hid hkeep =>
    obtain ⟨hn, rfl⟩ := h.withId?_iff.mp hid
    exact .nearest hn hkeep .refl fun _ _ _ hup => hup
  | @ended _ n hid hkeep hlink =>
    obtain ⟨hn, rfl⟩ := h.withId?_iff.mp hid
    refine .nothing fun b hb hbk hup => ?_
    rcases (h.atOrAbove_iff hb hn).mp hup with rfl | ⟨p, hp, -⟩
    · rw [hkeep] at hbk
      cases hbk
    · rw [hlink] at hp
      cases hp
  | @onward _ p n _ hid hkeep hlink _ ih =>
    obtain ⟨hn, rfl⟩ := h.withId?_iff.mp hid
    -- The node passed is not kept, so that the kept ones at its id are those at its parent's.
    have hpass : ∀ b ∈ nodes, keep b.id → AtOrAbove nodes b.id n.id → AtOrAbove nodes b.id p := by
      intro b hb hbk hup
      rcases (h.atOrAbove_iff hb hn).mp hup with rfl | ⟨q, hq, hup⟩
      · rw [hkeep] at hbk
        cases hbk
      · exact Option.some.inj (hlink.symm.trans hq) ▸ hup
    cases ih with
    | nearest ha hak hup first =>
      exact .nearest ha hak ((h.atOrAbove_iff ha hn).mpr (.inr ⟨p, hlink, hup⟩))
        fun b hb hbk hb' => first b hb hbk (hpass b hb hbk hb')
    | nothing absent => exact .nothing fun b hb hbk hup => absent b hb hbk (hpass b hb hbk hup)

theorem movesUp_of_climbs (h : Linked nodes) (hn : n ∈ nodes) (hp : n.parent = some p)
    {r : Option String} (hc : Climbs nodes (isShownId nodes) p r) :
    MovesUp nodes n { n with parent := r } := by
  have hup : ∀ b : FlowNode, Ancestor nodes b.id n.id ↔ AtOrAbove nodes b.id p := by
    intro b
    rw [h.ancestor_iff_parent hn, hp]
    simp
  cases h.finds_of_climbs hc with
  | @nearest a ha hak hap first =>
    refine .inl ⟨a, ⟨ha, (h.isShownId_iff ha).mp hak, (hup a).mpr hap, fun b hb hbs hbn => ?_⟩, rfl⟩
    have hba := first b hb ((h.isShownId_iff hb).mpr hbs) ((hup b).mp hbn)
    exact (Relation.reflTransGen_iff_eq_or_transGen.mp hba).imp_left
      fun he => h.eq_of_id hb ha he.symm
  | nothing absent =>
    refine .inr ⟨fun a ha has han => ?_, rfl⟩
    exact absent a ha ((h.isShownId_iff ha).mpr has) ((hup a).mp han)

theorem movesUp_raised (h : Linked nodes) (hn : n ∈ nodes) : MovesUp nodes n (raised nodes n) := by
  cases hp : n.parent with
  | none =>
    simp only [raised, hp]
    refine .inr ⟨fun a _ _ ha => ?_, by rw [← hp]⟩
    obtain ⟨p, hp', -⟩ := (h.ancestor_iff_parent hn).mp ha
    rw [hp] at hp'
    cases hp'
  | some p =>
    simp only [raised, hp]
    split_ifs with hkeep
    · obtain ⟨a, ha, he⟩ := List.any_eq_true.mp hkeep
      obtain rfl : a.id = p := of_decide_eq_true he
      have hc : Climbs nodes (isShownId nodes) a.id (some a.id) :=
        .found (h.withId?_iff.mpr ⟨(List.mem_filter.mp ha).1, rfl⟩) hkeep
      have hup := h.movesUp_of_climbs hn hp hc
      rwa [← hp] at hup
    · exact h.movesUp_of_climbs hn hp (h.climbs_climb (depth_le nodes p))

/-! The shown nodes stand above one another as before. -/

theorem ancestor_of_logicView (h : Linked nodes) {a d : String}
    (hup : Ancestor (logicView nodes) a d) : Ancestor nodes a d := by
  refine Relation.TransGen.closed (fun p c hpc => ?_) _ _ hup
  obtain ⟨m, hm, rfl, hp⟩ := hpc
  obtain ⟨n, hn, -, rfl⟩ := mem_logicView.mp hm
  rw [id_raised]
  rcases h.movesUp_raised hn with ⟨a, ha, he⟩ | ⟨-, he⟩
  · rw [he] at hp
    exact Option.some.inj hp ▸ ha.above
  · rw [he] at hp
    cases hp

theorem ancestor_logicView (h : Linked nodes) {a : FlowNode} (ha : a ∈ nodes)
    (hshown : a.inLogic) : ∀ n ∈ nodes, n.inLogic → Ancestor nodes a.id n.id →
      Ancestor (logicView nodes) a.id n.id := by
  refine h.induction fun n hn ih hns hup => ?_
  have hm : raised nodes n ∈ logicView nodes := mem_logicView.mpr ⟨n, hn, hns, rfl⟩
  rcases h.movesUp_raised hn with ⟨b, hb, he⟩ | ⟨habsent, -⟩
  · have hbn : IsParent (logicView nodes) b.id n.id := ⟨_, hm, by rw [he], by rw [he]⟩
    rcases hb.nearest a ha hshown hup with rfl | hab
    · exact .single hbn
    · exact (ih b hb.mem hb.above hb.shown hab).tail hbn
  · exact absurd hup (habsent a ha hshown)

theorem exists_parent_logicView (h : Linked nodes) (hm : m ∈ logicView nodes)
    (hp : m.parent = some p) : ∃ a ∈ logicView nodes, a.id = p := by
  obtain ⟨n, hn, -, rfl⟩ := mem_logicView.mp hm
  rcases h.movesUp_raised hn with ⟨a, ha, he⟩ | ⟨-, he⟩
  · rw [he] at hp
    refine ⟨_, mem_logicView.mpr ⟨a, ha.mem, ha.shown, rfl⟩, ?_⟩
    rw [id_raised]
    exact Option.some.inj hp
  · rw [he] at hp
    cases hp

end Linked

/-- Nodes that are all shown, below shown nodes, stay as they are. -/
theorem logicView_eq_self (hshown : ∀ n ∈ nodes, n.inLogic)
    (hparent : ∀ n ∈ nodes, ∀ p, n.parent = some p → ∃ a ∈ nodes, a.id = p) :
    logicView nodes = nodes := by
  have hall : nodes.filter (·.inLogic) = nodes := List.filter_eq_self.mpr hshown
  rw [logicView_eq_map, hall]
  refine (List.map_congr_left (g := fun n => n) fun n hn => ?_).trans (List.map_id' _)
  cases hp : n.parent with
  | none => simp only [raised, hp]
  | some p =>
    obtain ⟨a, ha, rfl⟩ := hparent n hn p hp
    have hkeep : isShownId nodes a.id := by
      rw [isShownId, hall]
      exact List.any_eq_true.mpr ⟨a, ha, decide_eq_true rfl⟩
    simp only [raised, hp, if_pos hkeep]

/-- The logic view of linked nodes has the shown ones in their order, each below the nearest shown
node above it. Shown nodes stand above one another just as before, every parent in the view is
there, and the view of the view is the view. Every search on the way up ends by itself. -/
theorem logicView_movesUp {nodes : List FlowNode} (h : Linked nodes) :
    let view := View.logic.apply nodes
    List.Forall₂ (MovesUp nodes) (nodes.filter (·.inLogic)) view ∧
      (∀ u ∈ nodes, ∀ v ∈ nodes, u.inLogic → v.inLogic →
        (Ancestor view u.id v.id ↔ Ancestor nodes u.id v.id)) ∧
      (∀ m ∈ view, ∀ p, m.parent = some p → ∃ a ∈ view, a.id = p) ∧
      View.logic.apply view = view ∧
      ∀ id, Climbs nodes (isShownId nodes) id (climb nodes (isShownId nodes) nodes.length id) := by
  have hparent : ∀ m ∈ logicView nodes, ∀ p, m.parent = some p → ∃ a ∈ logicView nodes, a.id = p :=
    fun _ hm _ hp => h.exists_parent_logicView hm hp
  refine ⟨?_, ?_, hparent, ?_, fun id => h.climbs_climb (depth_le nodes id)⟩
  · rw [View.apply, logicView_eq_map, List.forall₂_map_right_iff, List.forall₂_same]
    exact fun n hn => h.movesUp_raised (List.mem_filter.mp hn).1
  · intro u hu v hv hus hvs
    exact ⟨h.ancestor_of_logicView, h.ancestor_logicView hu hus v hv hvs⟩
  · refine logicView_eq_self (fun m hm => ?_) hparent
    obtain ⟨n, -, hshown, rfl⟩ := mem_logicView.mp hm
    rwa [inLogic_raised]

/-- Nodes whose parents come after them, are missing, or are not shown. -/
def scatteredNodes : List FlowNode :=
  let node (id : String) (kind : NodeKind) (parent : Option String) : FlowNode :=
    { (default : FlowNode) with id, kind, parent }
  [node "r" .returnStmt (some "g"), node "g" .genericCall (some "v"), node "v" .varDecl (some "f"),
    node "f" .function (some "gone"), node "t" .throwStmt (some ""),
    node "p" .platformCall (some "a"), node "a" .assignment none]

theorem logicView_movesUp_scatteredNodes :
    let view := View.logic.apply scatteredNodes
    Linked scatteredNodes ∧
    view.map (fun n => (n.id, n.parent)) =
      [("r", some "f"), ("f", none), ("t", none), ("p", none)] ∧
    List.Forall₂ (MovesUp scatteredNodes) (scatteredNodes.filter (·.inLogic)) view ∧
    (∀ u ∈ scatteredNodes, ∀ v ∈ scatteredNodes, u.inLogic → v.inLogic →
      (Ancestor view u.id v.id ↔ Ancestor scatteredNodes u.id v.id)) ∧
    (∀ m ∈ view, ∀ p, m.parent = some p → ∃ a ∈ view, a.id = p) ∧
    View.logic.apply view = view ∧
    ∀ id, Climbs scatteredNodes (isShownId scatteredNodes) id
      (climb scatteredNodes (isShownId scatteredNodes) scatteredNodes.length id) := by
  have hup : ∀ n ∈ scatteredNodes, ∀ p ∈ n.parent,
      ["gone", "", "f", "v", "g", "r", "t", "a", "p"].idxOf p <
        ["gone", "", "f", "v", "g", "r", "t", "a", "p"].idxOf n.id := by decide
  have h : Linked scatteredNodes := .of_rank _ (by decide) (by decide) hup
  exact ⟨h, by decide, logicView_movesUp h⟩

end Flowchart.FlowNode
