import Flowchart.Proofs.Diagram.Reachability

/-! Paths in the logic view. Between the nodes that are kept there are the same directed paths in
the logic view as among all nodes: what is dropped only stands on the way from one sibling to the
next. -/
namespace Flowchart
namespace FlowNode
variable {nodes : List FlowNode} {keep : FlowNode → Bool}

/-- An edge leads from one node to the other. -/
def Follows (nodes : List FlowNode) (m n : FlowNode) : Prop :=
  ∃ c l, Leads nodes m n c l

theorem IsFlow.reaches_iff (h : IsFlow nodes) {m n : FlowNode} (hm : m ∈ nodes) (hn : n ∈ nodes) :
    Reaches nodes m.id n.id ↔ Relation.ReflTransGen (Follows nodes) m n := by
  constructor
  · intro hr
    generalize ht : n.id = t at hr
    induction hr generalizing n with
    | refl =>
      rw [h.eq_of_id hn hm ht]
    | tail _ hstep ih =>
      obtain ⟨e, he, rfl, rfl⟩ := hstep
      obtain ⟨a, b, hl, hs, hb⟩ := h.mem_edges_iff.mp he
      obtain ⟨ha, hbn, -⟩ := hl.ends h
      obtain rfl := h.eq_of_id hn hbn (ht.trans hb)
      exact (ih ha hs.symm).tail ⟨_, _, hl⟩
  · intro hp
    refine hp.lift (·.id) ?_
    rintro a b ⟨c, l, hl⟩
    exact ⟨⟨a.id, b.id, c, l⟩, h.mem_edges_iff.mpr ⟨a, b, hl, rfl, rfl⟩, rfl, rfl⟩

/-- What is dropped has nothing below it, and execution goes on after it. -/
def Skips (nodes : List FlowNode) (keep : FlowNode → Bool) : Prop :=
  ∀ n ∈ nodes, keep n = false → n.kind.isLeaf ∧ n.kind.isTerminal = false

theorem head?_filter_iff {group : List FlowNode} {n : FlowNode} :
    (group.filter keep).head? = some n ↔
      ∃ skipped rest, group = skipped ++ n :: rest ∧ keep n ∧ ∀ x ∈ skipped, keep x = false := by
  rw [List.head?_filter, List.find?_eq_some_iff_append]
  constructor
  · rintro ⟨hk, skipped, rest, he, hs⟩
    exact ⟨skipped, rest, he, hk, fun x hx => by simpa using hs x hx⟩
  · rintro ⟨skipped, rest, he, hk, hs⟩
    exact ⟨hk, skipped, rest, he, fun x hx => by simpa using hs x hx⟩

theorem neighbours_filter_iff {group : List FlowNode} {m n : FlowNode} :
    [m, n] <:+: group.filter keep ↔
      ∃ front skipped back, group = front ++ m :: (skipped ++ n :: back) ∧ keep m ∧ keep n ∧
        ∀ x ∈ skipped, keep x = false := by
  constructor
  · rintro ⟨front, back, he⟩
    obtain ⟨l₁, l₂, rfl, he, -⟩ := List.filter_eq_append_iff.mp he.symm
    obtain ⟨l₃, l₄, rfl, -, he⟩ := List.filter_eq_append_iff.mp he
    obtain ⟨l₅, l₆, rfl, -, hm, he⟩ := List.filter_eq_cons_iff.mp he
    obtain ⟨skipped, l₇, rfl, hs, hn, -⟩ := List.filter_eq_cons_iff.mp he
    exact ⟨l₃ ++ l₅, skipped, l₇ ++ l₂, by simp, hm, hn, fun x hx => by simpa using hs x hx⟩
  · rintro ⟨front, skipped, back, rfl, hm, hn, hs⟩
    have hnil : skipped.filter keep = [] := List.filter_eq_nil_iff.mpr fun x hx => by simp [hs x hx]
    refine ⟨front.filter keep, back.filter keep, ?_⟩
    simp [hm, hn, hnil]

/-- `k` is the first node kept from `m` on among the siblings that follow it. -/
inductive Surfaces (nodes : List FlowNode) (keep : FlowNode → Bool) : FlowNode → FlowNode → Prop
  | here {n : FlowNode} : keep n → Surfaces nodes keep n n
  | next {p : String} {m n k : FlowNode} : keep m = false → [m, n] <:+: childrenOf nodes p →
      Surfaces nodes keep n k → Surfaces nodes keep m k

theorem Surfaces.eq_of_keep {m k : FlowNode} (hs : Surfaces nodes keep m k) (hk : keep m) :
    k = m := by
  cases hs with
  | here => rfl
  | next hm => simp [hm] at hk

theorem Surfaces.split (h : Forest nodes) {m k : FlowNode} (hs : Surfaces nodes keep m k)
    {p : String} (front : List FlowNode) {back : List FlowNode}
    (he : childrenOf nodes p = front ++ m :: back) :
    ∃ skipped rest, m :: back = skipped ++ k :: rest ∧ keep k ∧ ∀ x ∈ skipped, keep x = false := by
  induction hs generalizing front back with
  | here hk => exact ⟨[], back, rfl, hk, fun x hx => absurd hx List.not_mem_nil⟩
  | @next q m n k hm hin _ ih =>
    obtain ⟨front', back', hin⟩ := hin
    have hq : childrenOf nodes q = front' ++ m :: n :: back' := by rw [← hin]; simp
    obtain ⟨rfl, rfl, rfl⟩ := h.split_unique he hq
    have he' : childrenOf nodes p = (front ++ [m]) ++ n :: back' := by rw [he]; simp
    obtain ⟨skipped, rest, hsplit, hk, hskip⟩ := ih _ he'
    refine ⟨m :: skipped, rest, by rw [hsplit]; rfl, hk, ?_⟩
    exact List.forall_mem_cons.mpr ⟨hm, hskip⟩

namespace IsFlow

theorem not_leaf_of_child (h : IsFlow nodes) {p c : FlowNode} (hp : p ∈ nodes)
    (hc : c ∈ childrenOf nodes p.id) : p.kind.isLeaf = false :=
  h.parent_not_leaf hp (h.mem_childrenOf.mp hc).1 (h.mem_childrenOf.mp hc).2

theorem keep_of_child (h : IsFlow nodes) (hk : Skips nodes keep) {p c : FlowNode} (hp : p ∈ nodes)
    (hc : c ∈ childrenOf nodes p.id) : keep p := by
  cases hkp : keep p with
  | true => rfl
  | false =>
    have hleaf := (hk p hp hkp).1
    rw [h.not_leaf_of_child hp hc] at hleaf
    cases hleaf

/-- From a dropped node the only way is to the next sibling. -/
theorem next_of_dropped (h : IsFlow nodes) (hk : Skips nodes keep) {m n : FlowNode}
    (hmn : Follows nodes m n) (hm : keep m = false) :
    ∃ p, [m, n] <:+: childrenOf nodes p := by
  obtain ⟨c, l, hl⟩ := hmn
  have hchild {x : FlowNode} (hmn : m ∈ nodes) (hx : x ∈ childrenOf nodes m.id) : False := by
    have hkm := h.keep_of_child hk hmn hx
    rw [hm] at hkm
    cases hkm
  cases hl with
  | arm hmem hb _ _ => exact (hchild hmem hb).elim
  | first hmem _ _ hn => exact (hchild hmem (List.mem_of_head? hn)).elim
  | @next p _ _ _ _ hin _ => exact ⟨p.id, hin⟩
  | handler hmem _ hn _ => exact (hchild hmem hn).elim

/-- An edge from a kept node leads, among the kept nodes, to where its end surfaces. -/
theorem follows_filter (h : IsFlow nodes) (hk : Skips nodes keep) {m n k : FlowNode}
    (hmn : Follows nodes m n) (hm : keep m) (hs : Surfaces nodes keep n k) :
    Follows (nodes.filter keep) m k := by
  obtain ⟨c, l, hl⟩ := hmn
  have hmem {x : FlowNode} (hx : x ∈ nodes) (hkx : keep x) : x ∈ nodes.filter keep :=
    List.mem_filter.mpr ⟨hx, hkx⟩
  have hhead {p : String} (hn : (childrenOf nodes p).head? = some n) :
      (childrenOf (nodes.filter keep) p).head? = some k := by
    obtain ⟨back, hb⟩ := List.head?_eq_some_iff.mp hn
    obtain ⟨skipped, rest, he, hkk, hskip⟩ := hs.split h.toForest [] hb
    rw [childrenOf_filter, head?_filter_iff]
    exact ⟨skipped, rest, hb.trans he, hkk, hskip⟩
  cases hl with
  | @arm _ b _ d hmn hb hd hn =>
    have hbn := (h.mem_childrenOf.mp hb).1
    have hkb := h.keep_of_child hk hbn (List.mem_of_head? hn)
    have hb' : b ∈ childrenOf (nodes.filter keep) m.id := by
      rw [childrenOf_filter]
      exact List.mem_filter.mpr ⟨hb, hkb⟩
    exact ⟨_, _, .arm (hmem hmn hm) hb' hd (hhead hn)⟩
  | first hmn hc hb hn => exact ⟨_, _, .first (hmem hmn hm) hc hb (hhead hn)⟩
  | @next p _ _ hp hc hin ht =>
    have hkp := h.keep_of_child hk hp (mem_of_neighbours hin).1
    obtain ⟨front, back, hin⟩ := hin
    have he : childrenOf nodes p.id = (front ++ [m]) ++ n :: back := by rw [← hin]; simp
    obtain ⟨skipped, rest, hsplit, hkk, hskip⟩ := hs.split h.toForest _ he
    refine ⟨_, _, .next (hmem hp hkp) hc ?_ ht⟩
    rw [childrenOf_filter, neighbours_filter_iff]
    exact ⟨front, skipped, rest, by rw [he, hsplit]; simp, hm, hkk, hskip⟩
  | handler hmn hc hn hh =>
    have hnn := (h.mem_childrenOf.mp hn).1
    have hkn : keep n := by
      cases hkn : keep n with
      | true => rfl
      | false =>
        have hleaf := (hk n hnn hkn).1
        cases hkind : n.kind <;> simp [hkind, NodeKind.isHandler, NodeKind.isLeaf,
          NodeKind.isTerminal] at hh hleaf
    obtain rfl := hs.eq_of_keep hkn
    refine ⟨_, _, .handler (hmem hmn hm) hc ?_ hh⟩
    rw [childrenOf_filter]
    exact List.mem_filter.mpr ⟨hn, hkn⟩

/-- A path to a node is, among the kept nodes, a path to where the node surfaces. -/
theorem path_filter (h : IsFlow nodes) (hk : Skips nodes keep) {u w : FlowNode}
    (hp : Relation.ReflTransGen (Follows nodes) u w) (hu : keep u) :
    ∀ k, Surfaces nodes keep w k → Relation.ReflTransGen (Follows (nodes.filter keep)) u k := by
  induction hp with
  | refl =>
    intro k hs
    rw [hs.eq_of_keep hu]
  | @tail w n _ hwn ih =>
    intro k hs
    cases hkw : keep w with
    | true => exact (ih w (.here hkw)).tail (h.follows_filter hk hwn hkw hs)
    | false =>
      obtain ⟨p, hin⟩ := h.next_of_dropped hk hwn hkw
      exact ih k (.next hkw hin hs)

/-- Along siblings that do not end the execution there is a path. -/
theorem path_along {p m n : FlowNode} (hp : p ∈ nodes) (hc : p.kind ≠ .condition)
    (front : List FlowNode) {between back : List FlowNode}
    (he : childrenOf nodes p.id = front ++ m :: (between ++ n :: back))
    (ht : ∀ x ∈ m :: between, x.kind.isTerminal = false) :
    Relation.ReflTransGen (Follows nodes) m n := by
  induction between generalizing front m with
  | nil =>
    have hin : [m, n] <:+: childrenOf nodes p.id := ⟨front, back, by rw [he]; simp⟩
    exact .single ⟨_, _, .next hp hc hin (ht m (List.mem_cons_self ..))⟩
  | cons x between ih =>
    have hin : [m, x] <:+: childrenOf nodes p.id :=
      ⟨front, between ++ n :: back, by rw [he]; simp⟩
    have hfirst : Follows nodes m x := ⟨_, _, .next hp hc hin (ht m (List.mem_cons_self ..))⟩
    refine .head hfirst (ih (front ++ [m]) (by rw [he]; simp) ?_)
    exact fun y hy => ht y (List.mem_cons_of_mem m hy)

/-- What leads to the first of some siblings has a path to the first one kept. -/
theorem path_to_first (hk : Skips nodes keep) {p m n : FlowNode} (hp : p ∈ nodes)
    (hc : p.kind ≠ .condition) (hsub : ∀ x ∈ childrenOf nodes p.id, x ∈ nodes)
    (henter : ∀ x, (childrenOf nodes p.id).head? = some x → Follows nodes m x)
    (hn : ((childrenOf nodes p.id).filter keep).head? = some n) :
    Relation.ReflTransGen (Follows nodes) m n := by
  obtain ⟨skipped, rest, he, -, hskip⟩ := head?_filter_iff.mp hn
  cases skipped with
  | nil => exact .single (henter n (by rw [he]; rfl))
  | cons x skipped =>
    refine .head (henter x (by rw [he]; rfl)) (path_along hp hc [] he fun y hy => ?_)
    have hy' : y ∈ childrenOf nodes p.id := by
      rw [he]
      exact List.mem_append_left _ hy
    exact (hk y (hsub y hy') (hskip y hy)).2

/-- An edge among the kept nodes stands for a path among all nodes. -/
theorem path_of_follows_filter (h : IsFlow nodes) (hk : Skips nodes keep) {m n : FlowNode}
    (hmn : Follows (nodes.filter keep) m n) : Relation.ReflTransGen (Follows nodes) m n := by
  obtain ⟨c, l, hl⟩ := hmn
  have hsub (p : String) : ∀ x ∈ childrenOf nodes p, x ∈ nodes :=
    fun x hx => (h.mem_childrenOf.mp hx).1
  cases hl with
  | @arm _ b _ d hm hb hd hn =>
    rw [childrenOf_filter] at hb hn
    have hm := (List.mem_filter.mp hm).1
    have hb := (List.mem_filter.mp hb).1
    have hbk := (h.branch_isSome b (hsub _ b hb)).mp (by rw [hd]; rfl)
    refine path_to_first hk (hsub _ b hb) (by rw [hbk]; nofun) (hsub b.id) ?_ hn
    exact fun x hx => ⟨_, _, .arm hm hb hd hx⟩
  | first hm hc hb hn =>
    rw [childrenOf_filter] at hn
    have hm := (List.mem_filter.mp hm).1
    exact path_to_first hk hm hc (hsub m.id) (fun x hx => ⟨_, _, .first hm hc hb hx⟩) hn
  | @next p _ _ hp hc hin ht =>
    have hp := (List.mem_filter.mp hp).1
    rw [childrenOf_filter, neighbours_filter_iff] at hin
    obtain ⟨front, skipped, back, he, -, -, hskip⟩ := hin
    refine path_along hp hc front he (List.forall_mem_cons.mpr ⟨ht, fun x hx => ?_⟩)
    have hx' : x ∈ childrenOf nodes p.id := by rw [he]; simp [hx]
    exact (hk x (hsub _ x hx') (hskip x hx)).2
  | handler hm hc hn hh =>
    rw [childrenOf_filter] at hn
    exact .single ⟨_, _, .handler (List.mem_filter.mp hm).1 hc (List.mem_filter.mp hn).1 hh⟩

/-- Dropping nodes that execution only passes keeps all paths between the others. -/
theorem reaches_filter_iff (h : IsFlow nodes) (hk : Skips nodes keep) {u v : FlowNode}
    (hu : u ∈ nodes.filter keep) (hv : v ∈ nodes.filter keep) :
    Reaches nodes u.id v.id ↔ Reaches (nodes.filter keep) u.id v.id := by
  have hfilter : IsFlow (nodes.filter keep) := by
    refine h.filter fun n hn hleaf => ?_
    cases hkn : keep n with
    | true => rfl
    | false =>
      rw [(hk n hn hkn).1] at hleaf
      cases hleaf
  obtain ⟨hun, hku⟩ := List.mem_filter.mp hu
  obtain ⟨hvn, hkv⟩ := List.mem_filter.mp hv
  rw [h.reaches_iff hun hvn, hfilter.reaches_iff hu hv]
  constructor
  · exact fun hp => h.path_filter hk hp hku v (.here hkv)
  · exact Relation.reflTransGen_closed (fun _ _ => h.path_of_follows_filter hk) u v

end IsFlow

theorem skips_inLogic : Skips nodes (·.inLogic) := by
  intro n _ hk
  change n.inLogic = false at hk
  unfold inLogic at hk
  split at hk <;> simp_all [NodeKind.isLeaf, NodeKind.isTerminal]

end FlowNode

open FlowNode

/-- Between any two nodes of the logic view there is a directed path in that view exactly if there
is one among all operations. -/
theorem reaches_logicView_iff (src : Source) (t : Tree) {u v : FlowNode} (hu : u ∈ extract src t)
    (hv : v ∈ extract src t) (hul : u.inLogic) (hvl : v.inLogic) :
    Reaches (View.fullOperations.apply (extract src t)) u.id v.id ↔
      Reaches (View.logic.apply (extract src t)) u.id v.id := by
  have h := isFlow_extract src t
  rw [View.apply, View.apply, h.logicView_eq]
  exact h.reaches_filter_iff skips_inLogic (List.mem_filter.mpr ⟨hu, hul⟩)
    (List.mem_filter.mpr ⟨hv, hvl⟩)

/-- The tree of a function whose only exit comes after a call. -/
def exitAfterCall : Tree :=
  let mark (type : String) (start stop : Int) (field : Option String) : Mark :=
    ⟨type, true, false, false, ⟨start, stop⟩, field⟩
  .node (mark "program" 0 29 none) [
    .node (mark "function_declaration" 0 29 none) [
      .node (mark "identifier" 9 10 (some "name")) [],
      .node (mark "statement_block" 13 29 (some "body")) [
        .node (mark "expression_statement" 15 19 none) [
          .node (mark "call_expression" 15 18 none) [
            .node (mark "identifier" 15 16 (some "function")) []]],
        .node (mark "return_statement" 20 27 none) []]]]

/-- The node of that function. -/
def exitingFunction : FlowNode where
  kind := .function
  label := "function f()"
  range := ⟨0, 29⟩
  loc := ⟨⟨1, 0⟩, ⟨1, 29⟩⟩
  snippet := some "function f()"
  id := "node_0"

/-- The node of its exit. -/
def onlyExit : FlowNode where
  kind := .returnStmt
  label := "return"
  range := ⟨20, 27⟩
  loc := ⟨⟨1, 20⟩, ⟨1, 27⟩⟩
  snippet := some "return;"
  id := "node_2"
  parent := some "node_0"

/-- The exit is reached from the function in both views, by way of the call where it is shown, and
nothing is reached from the exit. -/
theorem reaches_logicView_iff_onlyExit :
    let nodes := extract (.ofString "function f() { g(); return; }") exitAfterCall
    let full := View.fullOperations.apply nodes
    let logic := View.logic.apply nodes
    exitingFunction ∈ nodes ∧ onlyExit ∈ nodes ∧ exitingFunction.inLogic ∧ onlyExit.inLogic ∧
      (Reaches full exitingFunction.id onlyExit.id ↔ Reaches logic exitingFunction.id onlyExit.id) ∧
      Reaches full exitingFunction.id onlyExit.id ∧ Reaches logic exitingFunction.id onlyExit.id ∧
      ¬ Reaches full onlyExit.id exitingFunction.id ∧
      ¬ Reaches logic onlyExit.id exitingFunction.id := by
  intro nodes full logic
  have hf : exitingFunction ∈ nodes := by decide +kernel
  have hx : onlyExit ∈ nodes := by decide +kernel
  have hthere := reaches_logicView_iff _ exitAfterCall hf hx rfl rfl
  have hback := reaches_logicView_iff _ exitAfterCall hx hf rfl rfl
  have hedge : (⟨"node_0", "node_2", .sequential, none⟩ : Edge) ∈ edges logic := by decide +kernel
  have hpath : Reaches logic exitingFunction.id onlyExit.id := .single ⟨_, hedge, rfl, rfl⟩
  have hend : ¬ Reaches full onlyExit.id exitingFunction.id := by
    have hleaves : ∀ e ∈ edges full, e.source ≠ onlyExit.id := by decide +kernel
    intro hp
    rcases hp.cases_head with hid | ⟨-, ⟨e, he, hs, -⟩, -⟩
    · revert hid
      decide
    · exact hleaves e he hs
  exact ⟨hf, hx, rfl, rfl, hthere, hthere.mpr hpath, hpath, hend, mt hback.mpr hend⟩

end Flowchart
