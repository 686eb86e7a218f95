import Flowchart.Proofs.Diagram.LayoutEquations
import Mathlib.Algebra.Order.BigOperators.Group.List
import Mathlib.Data.List.MinMax

/-! How far down a node reaches with all that is drawn below it. Only the arms of a condition stand
side by side. -/
namespace Flowchart
namespace Layout
open FlowNode
variable {nodes : List FlowNode}

/-- `m` stands in one of the columns right below `n`. -/
def RightBelow (nodes : List FlowNode) (n m : FlowNode) : Prop :=
  ∃ c ∈ columnsBelow nodes n, m ∈ c.2

/-- `d` is `n` or stands below it, at any distance. -/
def Under (nodes : List FlowNode) : FlowNode → FlowNode → Prop :=
  Relation.ReflTransGen (RightBelow nodes)

/-- `s` is `u` or an ancestor of it. -/
def Covers (nodes : List FlowNode) (s u : FlowNode) : Prop :=
  s = u ∨ Ancestor nodes s.id u.id

/-- The first position is a whole row or more above the second. -/
def RowAbove (p q : Position) : Prop :=
  p.y + rowHeight ≤ q.y

/-- Neither position is in the row of the other. -/
def Apart (p q : Position) : Prop :=
  RowAbove p q ∨ RowAbove q p

theorem apart_iff {p q : Position} : Apart p q ↔ rowHeight ≤ (p.y - q.y).natAbs := by
  unfold Apart RowAbove
  omega

/-! What stands below a node, by columns and by parents. -/

theorem RightBelow.mem (h : IsFlow nodes) {n m : FlowNode} (hn : n ∈ nodes)
    (hm : RightBelow nodes n m) : m ∈ nodes ∧ m.isDrawn := by
  obtain ⟨⟨shift, column⟩, hc, hm⟩ := hm
  obtain ⟨hmn, -, hd⟩ := mem_of_column h hn hc hm
  exact ⟨hmn, hd⟩

theorem RightBelow.ancestor (h : IsFlow nodes) {n m : FlowNode} (hn : n ∈ nodes)
    (hm : RightBelow nodes n m) : Ancestor nodes n.id m.id := by
  obtain ⟨⟨shift, column⟩, hc, hm⟩ := hm
  obtain ⟨q, hq, rfl, -, hqn⟩ := exists_owner h hn hc
  obtain ⟨hmn, hmq⟩ := h.mem_childrenOf.mp hm
  have hstep : IsParent nodes q.id m.id := ⟨m, hmn, rfl, hmq⟩
  rcases hqn with ⟨rfl, -⟩ | ⟨-, hqc, -⟩
  · exact .single hstep
  · exact .tail (.single ⟨q, hq, rfl, (h.mem_childrenOf.mp hqc).2⟩) hstep

theorem Under.covers (h : IsFlow nodes) {n d : FlowNode} (hn : n ∈ nodes)
    (hu : Under nodes n d) : Covers nodes n d := by
  induction hu using Relation.ReflTransGen.head_induction_on with
  | refl => exact .inl rfl
  | head hm _ ih =>
    have ha := hm.ancestor h hn
    rcases ih (hm.mem h hn).1 with rfl | hd
    · exact .inr ha
    · exact .inr (ha.trans hd)

/-- What a drawn node is an ancestor of stands below it. -/
theorem under_of_ancestor (h : IsFlow nodes) {a : FlowNode} (ha : a ∈ nodes) (had : a.isDrawn) :
    ∀ d ∈ nodes, d.isDrawn → Ancestor nodes a.id d.id → Under nodes a d := by
  refine h.induction fun d hd ih hdd hanc => ?_
  cases hp : d.parent with
  | none => exact absurd hanc (h.not_ancestor_root hd hp)
  | some id =>
    obtain ⟨q, hq, rfl, -⟩ := h.parent_mem d hd id hp
    obtain ⟨n, hn, hnd, hlt, shift, column, hc, hdc⟩ := exists_column h hd hdd hq hp
    have hstep : RightBelow nodes n d := ⟨_, hc, hdc⟩
    obtain ⟨q', hq', rfl, -, hqn⟩ := exists_owner h hn hc
    obtain rfl := h.eq_of_parent hq hq' hp (h.mem_childrenOf.mp hdc).2
    have han : a = n ∨ Ancestor nodes a.id n.id := by
      rcases (h.ancestor_iff hd hp).mp hanc with he | haq
      · obtain rfl := h.eq_of_id ha hq he
        rcases hqn with ⟨rfl, -⟩ | ⟨hb, -⟩
        · exact .inl rfl
        · simp [isDrawn, hb] at had
      · rcases hqn with ⟨rfl, -⟩ | ⟨-, hqc, -⟩
        · exact .inr haq
        · have hqp := (h.mem_childrenOf.mp hqc).2
          exact ((h.ancestor_iff hq hqp).mp haq).imp_left (h.eq_of_id ha hn)
    rcases han with rfl | han
    · exact .single hstep
    · exact (ih n hn hlt hnd han).tail hstep

theorem under_of_covers (h : IsFlow nodes) {s u : FlowNode} (hs : s ∈ nodes) (hd : s.isDrawn)
    (hu : u ∈ nodes) (hud : u.isDrawn) (hc : Covers nodes s u) : Under nodes s u := by
  rcases hc with rfl | ha
  · exact .refl
  · exact under_of_ancestor h hs hd u hu hud ha

theorem exists_root_under (h : IsFlow nodes) :
    ∀ n ∈ nodes, n.isDrawn → ∃ r ∈ rootNodes nodes, Under nodes r n := by
  refine h.induction fun n hn ih hd => ?_
  cases hp : n.parent with
  | none => exact ⟨n, List.mem_filter.mpr ⟨hn, by simpa using hp⟩, .refl⟩
  | some id =>
    obtain ⟨q, hq, rfl, -⟩ := h.parent_mem n hn id hp
    obtain ⟨k, hk, hkd, hlt, shift, column, hc, hnc⟩ := exists_column h hn hd hq hp
    obtain ⟨r, hr, hu⟩ := ih k hk hlt hkd
    exact ⟨r, hr, hu.tail ⟨_, hc, hnc⟩⟩

/-! The rows of a node hold all that is below it. -/

theorem rowsOf_pos (h : IsFlow nodes) {n : FlowNode} (hn : n ∈ nodes) : 0 < rowsOf nodes n := by
  rw [rowsOf_eq h hn]
  omega

/-- A node takes a row more than each of its columns. -/
theorem column_lt_rowsOf (h : IsFlow nodes) {n : FlowNode} (hn : n ∈ nodes) {shift : Int}
    {column : List FlowNode} (hc : (shift, column) ∈ columnsBelow nodes n) :
    (column.map (rowsOf nodes)).sum < rowsOf nodes n := by
  rw [rowsOf_eq h hn]
  exact Nat.lt_one_add_iff.mpr
    (List.le_max_of_le' 0 (List.mem_map_of_mem hc) (Nat.le_refl _))

/-- The rows of what is below a node lie within those of the node. -/
theorem Under.extent (h : IsFlow nodes) {n d : FlowNode} {p q : Position} (hu : Under nodes n d)
    (hs : Stands nodes n p) (hd : Stands nodes d q) :
    p.y ≤ q.y ∧ q.y + rowHeight * rowsOf nodes d ≤ p.y + rowHeight * rowsOf nodes n := by
  induction hu using Relation.ReflTransGen.head_induction_on generalizing p with
  | refl =>
    obtain rfl := hs.unique h hd
    exact ⟨Int.le_refl _, Int.le_refl _⟩
  | @head n m hm _ ih =>
    obtain ⟨⟨shift, column⟩, hc, hm⟩ := hm
    obtain ⟨hn, hnd⟩ := hs.mem h
    obtain ⟨before, after, rfl⟩ := List.append_of_mem hm
    obtain ⟨htop, hbottom⟩ := ih (.column hn hnd hs hc)
    have hlt := column_lt_rowsOf h hn hc
    simp only [List.map_append, List.map_cons, List.sum_append, List.sum_cons] at hlt
    simp only [rowHeight, boxHeight, gap] at htop hbottom ⊢
    omega

theorem Under.rowAbove (h : IsFlow nodes) {n d : FlowNode} {p q : Position} (hu : Under nodes n d)
    (hne : n ≠ d) (hs : Stands nodes n p) (hd : Stands nodes d q) : RowAbove p q := by
  rcases hu.cases_head with rfl | ⟨m, ⟨⟨shift, column⟩, hc, hm⟩, hmd⟩
  · exact absurd rfl hne
  · obtain ⟨hn, hnd⟩ := hs.mem h
    obtain ⟨before, after, rfl⟩ := List.append_of_mem hm
    have htop := (Under.extent h hmd (.column hn hnd hs hc) hd).1
    simp only [RowAbove, rowHeight, boxHeight, gap] at htop ⊢
    omega

/-- All below a node is above all below another one that stands under the rows of the first. -/
theorem rowAbove_of_extent (h : IsFlow nodes) {s s' u w : FlowNode} {a b p q : Position}
    (hs : Stands nodes s a) (hs' : Stands nodes s' b)
    (hle : a.y + rowHeight * rowsOf nodes s ≤ b.y) (hu : Under nodes s u) (hw : Under nodes s' w)
    (hp : Stands nodes u p) (hq : Stands nodes w q) : RowAbove p q := by
  have hbottom := (hu.extent h hs hp).2
  have htop := (hw.extent h hs' hq).1
  have hpos := rowsOf_pos h (hp.mem h).1
  simp only [RowAbove, rowHeight, boxHeight, gap] at hbottom htop hle ⊢
  omega

theorem split_two {α : Type} {l : List α} {x y : α} (hx : x ∈ l) (hy : y ∈ l) (hne : x ≠ y) :
    (∃ before between after, l = before ++ x :: (between ++ y :: after)) ∨
      ∃ before between after, l = before ++ y :: (between ++ x :: after) := by
  obtain ⟨before, after, rfl⟩ := List.append_of_mem hx
  rcases List.mem_append.mp hy with hy | hy
  · obtain ⟨first, between, rfl⟩ := List.append_of_mem hy
    exact .inr ⟨first, between, after, by simp⟩
  · rcases List.mem_cons.mp hy with rfl | hy
    · exact absurd rfl hne
    · obtain ⟨between, last, rfl⟩ := List.append_of_mem hy
      exact .inl ⟨before, between, last, rfl⟩

theorem rowAbove_of_column (h : IsFlow nodes) {n s s' u w : FlowNode} {p q : Position}
    {shift : Int} {before between after : List FlowNode} (hn : n ∈ nodes) (hd : n.isDrawn)
    (hc : (shift, before ++ s :: (between ++ s' :: after)) ∈ columnsBelow nodes n)
    (hu : Under nodes s u) (hw : Under nodes s' w) (hp : Stands nodes u p)
    (hq : Stands nodes w q) : RowAbove p q := by
  obtain ⟨o, ho⟩ := exists_stands h n hn hd
  have hc' : (shift, (before ++ s :: between) ++ s' :: after) ∈ columnsBelow nodes n := by
    simpa using hc
  refine rowAbove_of_extent h (.column hn hd ho hc) (.column hn hd ho hc') ?_ hu hw hp hq
  simp only [List.map_append, List.map_cons, List.sum_append, List.sum_cons, rowHeight, boxHeight,
    gap]
  omega

theorem rowAbove_of_roots (h : IsFlow nodes) {r r' u w : FlowNode} {p q : Position}
    {before between after : List FlowNode}
    (hr : rootNodes nodes = before ++ r :: (between ++ r' :: after))
    (hu : Under nodes r u) (hw : Under nodes r' w) (hp : Stands nodes u p)
    (hq : Stands nodes w q) : RowAbove p q := by
  have hr' : rootNodes nodes = (before ++ r :: between) ++ r' :: after := by simp [hr]
  refine rowAbove_of_extent h (.root hr) (.root hr') ?_ hu hw hp hq
  have hgap : 0 ≤ (between.map fun s => rowHeight * (rowsOf nodes s : Int) + gap).sum := by
    refine List.sum_nonneg fun k hk => ?_
    obtain ⟨s, -, rfl⟩ := List.mem_map.mp hk
    simp only [rowHeight, boxHeight, gap]
    omega
  simp only [List.map_append, List.map_cons, List.sum_append, List.sum_cons]
  omega

/-! Nodes that are not in different arms of a condition. -/

/-- `u` and `w` descend from two different branches of a condition. -/
def OppositeArms (nodes : List FlowNode) (u w : FlowNode) : Prop :=
  ∃ c ∈ nodes, c.kind = .condition ∧ Ancestor nodes c.id u.id ∧ Ancestor nodes c.id w.id ∧
    ∃ a b, a ∈ childrenOf nodes c.id ∧ b ∈ childrenOf nodes c.id ∧ a ≠ b ∧
      a.kind = .branch ∧ b.kind = .branch ∧ Ancestor nodes a.id u.id ∧ Ancestor nodes b.id w.id

/-- Two columns of one node are those of different arms. -/
theorem oppositeArms_of_columns (h : IsFlow nodes) {n s s' u w : FlowNode} (hn : n ∈ nodes)
    {shift shift' : Int} {column column' : List FlowNode}
    (hc : (shift, column) ∈ columnsBelow nodes n) (hc' : (shift', column') ∈ columnsBelow nodes n)
    (hne : column ≠ column') (hs : s ∈ column) (hs' : s' ∈ column') (hu : Under nodes s u)
    (hw : Under nodes s' w) : OppositeArms nodes u w := by
  have harm {arm k d : FlowNode} (ha : arm ∈ childrenOf nodes n.id)
      (hk : k ∈ childrenOf nodes arm.id) (hd : Under nodes k d) :
      Ancestor nodes n.id d.id ∧ Ancestor nodes arm.id d.id := by
    obtain ⟨hkn, hka⟩ := h.mem_childrenOf.mp hk
    obtain ⟨han, hap⟩ := h.mem_childrenOf.mp ha
    have hstep : IsParent nodes arm.id k.id := ⟨k, hkn, rfl, hka⟩
    have hd' : Ancestor nodes arm.id d.id := by
      rcases hd.covers h hkn with rfl | hd
      · exact .single hstep
      · exact .head hstep hd
    exact ⟨.head ⟨arm, han, rfl, hap⟩ hd', hd'⟩
  rcases mem_columnsBelow.mp hc with ⟨hk, a, ha, -, rfl⟩ | ⟨hk, -, rfl⟩
  · rcases mem_columnsBelow.mp hc' with ⟨-, b, hb, -, rfl⟩ | ⟨hk', -⟩
    · obtain ⟨hnu, hau⟩ := harm ha hs hu
      obtain ⟨hnw, hbw⟩ := harm hb hs' hw
      refine ⟨n, hn, hk, hnu, hnw, a, b, ha, hb, ?_, ?_, ?_, hau, hbw⟩
      · rintro rfl
        exact hne rfl
      · exact h.condition_children n hn hk a ha
      · exact h.condition_children n hn hk b hb
    · exact absurd hk hk'
  · rcases mem_columnsBelow.mp hc' with ⟨hk', -⟩ | ⟨-, -, rfl⟩
    · exact absurd hk' hk
    · exact absurd rfl hne

/-- Of two nodes below a third one, one stands above the other or they are in different arms. -/
theorem apart_of_under (h : IsFlow nodes) {n u w : FlowNode} {p q : Position} (hn : n ∈ nodes)
    (hd : n.isDrawn) (hu : Under nodes n u) (hw : Under nodes n w) (hne : u ≠ w)
    (hp : Stands nodes u p) (hq : Stands nodes w q) : Apart p q ∨ OppositeArms nodes u w := by
  induction hu using Relation.ReflTransGen.head_induction_on with
  | refl => exact .inl (.inl (Under.rowAbove h hw hne hp hq))
  | @head n s hs hsu ih =>
    rcases hw.cases_head with rfl | ⟨s', hs', hsw⟩
    · exact .inl (.inr (Under.rowAbove h (hsu.head hs) hne.symm hq hp))
    · by_cases heq : s = s'
      · subst heq
        obtain ⟨hsn, hsd⟩ := hs.mem h hn
        exact ih hsn hsd hsw
      · obtain ⟨⟨shift, column⟩, hc, hsc⟩ := hs
        obtain ⟨⟨shift', column'⟩, hc', hsc'⟩ := hs'
        by_cases hcol : column = column'
        · subst hcol
          rcases split_two hsc hsc' heq with ⟨before, between, after, rfl⟩ |
            ⟨before, between, after, rfl⟩
          · exact .inl (.inl (rowAbove_of_column h hn hd hc hsu hsw hp hq))
          · exact .inl (.inr (rowAbove_of_column h hn hd hc hsw hsu hq hp))
        · exact .inr (oppositeArms_of_columns h hn hc hc' hcol hsc hsc' hsu hsw)

theorem apart_of_roots (h : IsFlow nodes) {r r' u w : FlowNode} {p q : Position}
    (hr : r ∈ rootNodes nodes) (hr' : r' ∈ rootNodes nodes) (hne : r ≠ r')
    (hu : Under nodes r u) (hw : Under nodes r' w) (hp : Stands nodes u p)
    (hq : Stands nodes w q) : Apart p q := by
  rcases split_two hr hr' hne with ⟨before, between, after, he⟩ | ⟨before, between, after, he⟩
  · exact .inl (rowAbove_of_roots h he hu hw hp hq)
  · exact .inr (rowAbove_of_roots h he hw hu hq hp)

theorem apart_or_oppositeArms (h : IsFlow nodes) {u w : FlowNode} {p q : Position} (hne : u ≠ w)
    (hp : Stands nodes u p) (hq : Stands nodes w q) : Apart p q ∨ OppositeArms nodes u w := by
  obtain ⟨r, hr, hu⟩ := exists_root_under h u (hp.mem h).1 (hp.mem h).2
  obtain ⟨r', hr', hw⟩ := exists_root_under h w (hq.mem h).1 (hq.mem h).2
  by_cases heq : r = r'
  · subst heq
    obtain ⟨hrn, hrd⟩ := isDrawn_of_root h hr
    exact apart_of_under h hrn hrd hu hw hne hp hq
  · exact .inl (apart_of_roots h hr hr' heq hu hw hp hq)

/-- All below a drawn node is apart from all below another one with the same parent. -/
theorem apart_of_siblings (h : IsFlow nodes) {s s' u w : FlowNode} {p q : Position}
    (hs : s ∈ nodes) (hs' : s' ∈ nodes) (hd : s.isDrawn) (hne : s ≠ s')
    (hpar : s.parent = s'.parent) (hu : Under nodes s u) (hw : Under nodes s' w)
    (hp : Stands nodes u p) (hq : Stands nodes w q) : Apart p q := by
  cases hid : s.parent with
  | none =>
    have hr : s ∈ rootNodes nodes := List.mem_filter.mpr ⟨hs, by simpa using hid⟩
    have hr' : s' ∈ rootNodes nodes := List.mem_filter.mpr ⟨hs', by simpa [← hpar] using hid⟩
    exact apart_of_roots h hr hr' hne hu hw hp hq
  | some id =>
    obtain ⟨o, ho, rfl, -⟩ := h.parent_mem s hs id hid
    obtain ⟨n, hn, hnd, -, shift, column, hc, hsc⟩ := exists_column h hs hd ho hid
    obtain ⟨o', ho', rfl, -⟩ := exists_owner h hn hc
    have hsc' : s' ∈ childrenOf nodes o'.id :=
      h.mem_childrenOf.mpr ⟨hs', hpar.symm.trans (h.mem_childrenOf.mp hsc).2⟩
    rcases split_two hsc hsc' hne with ⟨before, between, after, he⟩ | ⟨before, between, after, he⟩
    · rw [he] at hc
      exact .inl (rowAbove_of_column h hn hnd hc hu hw hp hq)
    · rw [he] at hc
      exact .inr (rowAbove_of_column h hn hnd hc hw hu hq hp)

end Layout

open FlowNode Layout

/-- In both views two drawn nodes stand less than a row apart only in different arms of a condition.
What is below a node stands below its row, and siblings are apart with all that is below them. -/
theorem position?_apart (v : View) (src : Source) (t : Tree) {u w : FlowNode}
    (hu : u ∈ v.apply (extract src t)) (hw : w ∈ v.apply (extract src t)) (hud : u.isDrawn)
    (hwd : w.isDrawn) (hne : u ≠ w) :
    let nodes := v.apply (extract src t)
    ∃ p q, position? nodes u.id = some p ∧ position? nodes w.id = some q ∧
      ((p.y - q.y).natAbs < rowHeight → OppositeArms nodes u w) ∧
      (Ancestor nodes u.id w.id → p.y + rowHeight ≤ q.y) ∧
      ∀ s ∈ nodes, ∀ s' ∈ nodes, s.isDrawn → s'.isDrawn → s ≠ s' → s.parent = s'.parent →
        Covers nodes s u → Covers nodes s' w → rowHeight ≤ (p.y - q.y).natAbs := by
  intro nodes
  have h : IsFlow nodes := isFlow_view v src t
  obtain ⟨p, hp⟩ := exists_stands h u hu hud
  obtain ⟨q, hq⟩ := exists_stands h w hw hwd
  refine ⟨p, q, (position?_eq_some_iff h).mpr ⟨u, rfl, hp⟩,
    (position?_eq_some_iff h).mpr ⟨w, rfl, hq⟩, fun hlt => ?_, fun ha => ?_, ?_⟩
  · rcases apart_or_oppositeArms h hne hp hq with hapart | harms
    · exact absurd (apart_iff.mp hapart) (Nat.not_le_of_lt hlt)
    · exact harms
  · exact (under_of_ancestor h hu hud w hw hwd ha).rowAbove h hne hp hq
  · intro s hs s' hs' hsd hsd' hss hpar hsu hsw
    have hsu := under_of_covers h hs hsd hu hud hsu
    have hsw := under_of_covers h hs' hsd' hw hwd hsw
    exact apart_iff.mp (apart_of_siblings h hs hs' hsd hss hpar hsu hsw hp hq)

/-- The tree of a condition that returns in both of its arms. -/
def twoReturns : Tree :=
  let mark (type : String) (start stop : Int) (field : Option String) : Mark :=
    ⟨type, true, false, false, ⟨start, stop⟩, field⟩
  .node (mark "program" 0 31 none) [
    .node (mark "if_statement" 0 31 none) [
      .node (mark "identifier" 4 5 (some "condition")) [],
      .node (mark "return_statement" 7 16 (some "consequence")) [],
      .node (mark "return_statement" 22 31 (some "alternative")) []]]

/-- A return of nine characters from the first line. -/
def returnAt (start : Nat) (text id parent : String) : FlowNode where
  kind := .returnStmt
  label := "return"
  range := ⟨start, start + 9⟩
  loc := ⟨⟨1, start⟩, ⟨1, start + 9⟩⟩
  snippet := some text
  id := id
  parent := some parent

/-- The two returns stand side by side. -/
theorem position?_apart_twoReturns :
    let nodes := View.fullOperations.apply
      (extract (.ofString "if (x) return 1; else return 2;") twoReturns)
    let u := returnAt 7 "return 1;" "node_2" "node_1"
    let w := returnAt 22 "return 2;" "node_4" "node_3"
    u ∈ nodes ∧ w ∈ nodes ∧ u.isDrawn ∧ w.isDrawn ∧ u ≠ w ∧
      position? nodes u.id = some ⟨420, 160⟩ ∧ position? nodes w.id = some ⟨180, 160⟩ ∧
      OppositeArms nodes u w := by
  intro nodes u w
  have hu : u ∈ nodes := by decide +kernel
  have hw : w ∈ nodes := by decide +kernel
  have hne : u ≠ w := by decide
  have hpu : position? nodes u.id = some ⟨420, 160⟩ := by decide +kernel
  have hpw : position? nodes w.id = some ⟨180, 160⟩ := by decide +kernel
  obtain ⟨p, q, hp, hq, harms, -⟩ := position?_apart .fullOperations _ twoReturns hu hw rfl rfl hne
  obtain rfl := Option.some.inj (hp.symm.trans hpu)
  obtain rfl := Option.some.inj (hq.symm.trans hpw)
  exact ⟨hu, hw, rfl, rfl, hne, hpu, hpw, harms (by decide)⟩

end Flowchart
