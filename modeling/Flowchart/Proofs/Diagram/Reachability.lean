import Flowchart.Proofs.Diagram.Leads
import Mathlib.Data.List.Basic

/-! Which nodes of a flow the edges reach: all that no exit or jump before them cuts off. -/
namespace Flowchart
namespace FlowNode
variable {nodes : List FlowNode}

/-- A directed path, perhaps an empty one, along the edges of a flow. -/
def Reaches (nodes : List FlowNode) : String → String → Prop :=
  Relation.ReflTransGen fun s t => ∃ e ∈ edges nodes, e.source = s ∧ e.target = t

/-- `r` is the node without a parent in the tree that `n` belongs to. -/
def RootOf (nodes : List FlowNode) (r n : FlowNode) : Prop :=
  r ∈ nodes ∧ r.parent = none ∧ (r = n ∨ Ancestor nodes r.id n.id)

/-- A node `z` before `a` under the same parent ends the execution, and none of the nodes after `z`,
up to `a` itself, is a handler. -/
def Cut (nodes : List FlowNode) (a : FlowNode) : Prop :=
  ∃ p before z between after, childrenOf nodes p = before ++ z :: (between ++ a :: after) ∧
    z.kind.isTerminal ∧ ∀ s ∈ between ++ [a], s.kind.isHandler = false

/-- The node or one of its ancestors is cut off. -/
def Dead (nodes : List FlowNode) (t : FlowNode) : Prop :=
  ∃ a ∈ nodes, (a = t ∨ Ancestor nodes a.id t.id) ∧ Cut nodes a

namespace Forest

theorem nodup_children (h : Forest nodes) (p : String) : (childrenOf nodes p).Nodup :=
  (h.children_ordered p).imp fun hlt he => hlt.id_ne (congrArg _ he)

/-- A node has one place among its siblings. -/
theorem split_unique (h : Forest nodes) {p q : String} {n : FlowNode} {l₁ r₁ l₂ r₂ : List FlowNode}
    (h₁ : childrenOf nodes p = l₁ ++ n :: r₁) (h₂ : childrenOf nodes q = l₂ ++ n :: r₂) :
    p = q ∧ l₁ = l₂ ∧ r₁ = r₂ := by
  have hp : n ∈ childrenOf nodes p := by rw [h₁]; simp
  have hq : n ∈ childrenOf nodes q := by rw [h₂]; simp
  obtain rfl := h.eq_of_mem_childrenOf hp hq
  have hnd := h.nodup_children p
  rw [h₁, List.nodup_append, List.nodup_cons] at hnd
  have hleft : n ∉ l₁ := fun hn => hnd.2.2 n hn n (List.mem_cons_self ..) rfl
  obtain ⟨hl, -, hr⟩ := (List.append_cons_inj_of_notMem hleft hnd.2.1.1).mp (h₁.symm.trans h₂)
  exact ⟨rfl, hl, hr⟩

/-- An ancestor of a node is its parent or an ancestor of its parent. -/
theorem ancestor_iff (h : Forest nodes) {a : String} {n p : FlowNode} (hn : n ∈ nodes)
    (hp : n.parent = some p.id) : Ancestor nodes a n.id ↔ a = p.id ∨ Ancestor nodes a p.id := by
  have hparent {b : String} (hb : IsParent nodes b n.id) : b = p.id := by
    obtain ⟨m, hm, hid, hpar⟩ := hb
    obtain rfl := h.eq_of_id hm hn hid
    exact Option.some.inj (hpar.symm.trans hp)
  have hstep : IsParent nodes p.id n.id := ⟨n, hn, rfl, hp⟩
  constructor
  · intro ha
    cases ha with
    | single hb => exact .inl (hparent hb)
    | tail ha hb => exact .inr (hparent hb ▸ ha)
  · rintro (rfl | ha)
    · exact .single hstep
    · exact ha.tail hstep

theorem not_ancestor_root (h : Forest nodes) {a : String} {n : FlowNode} (hn : n ∈ nodes)
    (hp : n.parent = none) : ¬ Ancestor nodes a n.id := by
  intro ha
  obtain ⟨b, -, m, hm, hid, hpar⟩ := Relation.TransGen.tail'_iff.mp ha
  obtain rfl := h.eq_of_id hm hn hid
  rw [hp] at hpar
  cases hpar

theorem rootOf_iff (h : Forest nodes) {r n p : FlowNode} (hn : n ∈ nodes) (hm : p ∈ nodes)
    (hp : n.parent = some p.id) : RootOf nodes r n ↔ RootOf nodes r p := by
  unfold RootOf
  refine and_congr_right fun hr => and_congr_right fun hroot => ?_
  rw [h.ancestor_iff hn hp]
  constructor
  · rintro (rfl | he | ha)
    · rw [hroot] at hp
      cases hp
    · exact .inl (h.eq_of_id hr hm he)
    · exact .inr ha
  · rintro (rfl | ha)
    · exact .inr (.inl rfl)
    · exact .inr (.inr ha)

theorem exists_root (h : Forest nodes) :
    ∀ n ∈ nodes, ∃ r, RootOf nodes r n ∧ ∀ r', RootOf nodes r' n → r' = r := by
  refine h.induction fun n hn ih => ?_
  cases hp : n.parent with
  | none =>
    refine ⟨n, ⟨hn, hp, .inl rfl⟩, ?_⟩
    rintro r' ⟨-, -, he | ha⟩
    · exact he
    · exact absurd ha (h.not_ancestor_root hn hp)
  | some p =>
    obtain ⟨m, hm, rfl, hlt⟩ := h.parent_mem n hn p hp
    obtain ⟨r, hr, huniq⟩ := ih m hm hlt
    have hiff (r' : FlowNode) := h.rootOf_iff (r := r') hn hm hp
    exact ⟨r, (hiff r).mpr hr, fun r' hr' => huniq r' ((hiff r').mp hr')⟩

theorem dead_iff (h : Forest nodes) {n p : FlowNode} (hn : n ∈ nodes) (hm : p ∈ nodes)
    (hp : n.parent = some p.id) : Dead nodes n ↔ Cut nodes n ∨ Dead nodes p := by
  constructor
  · rintro ⟨a, ha, rfl | han, hcut⟩
    · exact .inl hcut
    · rcases (h.ancestor_iff hn hp).mp han with he | hap
      · exact .inr ⟨a, ha, .inl (h.eq_of_id ha hm he), hcut⟩
      · exact .inr ⟨a, ha, .inr hap, hcut⟩
  · rintro (hcut | ⟨a, ha, rfl | hap, hcut⟩)
    · exact ⟨n, hn, .inl rfl, hcut⟩
    · exact ⟨a, ha, .inr ((h.ancestor_iff hn hp).mpr (.inl rfl)), hcut⟩
    · exact ⟨a, ha, .inr ((h.ancestor_iff hn hp).mpr (.inr hap)), hcut⟩

theorem not_cut_of_root (h : Forest nodes) {n : FlowNode} (hp : n.parent = none) :
    ¬ Cut nodes n := by
  rintro ⟨p, before, z, between, after, he, -⟩
  have hc : n ∈ childrenOf nodes p := by rw [he]; simp
  rw [(h.mem_childrenOf.mp hc).2] at hp
  cases hp

theorem not_cut_of_first (h : Forest nodes) {n : FlowNode} {p : String}
    (hf : (childrenOf nodes p).head? = some n) : ¬ Cut nodes n := by
  rintro ⟨q, before, z, between, after, he, -⟩
  obtain ⟨rest, hrest⟩ := List.head?_eq_some_iff.mp hf
  have hrest : childrenOf nodes p = [] ++ n :: rest := hrest
  have he : childrenOf nodes q = (before ++ z :: between) ++ n :: after := by rw [he]; simp
  obtain ⟨-, hl, -⟩ := h.split_unique hrest he
  simp at hl

theorem not_cut_of_handler {n : FlowNode} (hk : n.kind.isHandler) : ¬ Cut nodes n := by
  rintro ⟨p, before, z, between, after, -, -, hs⟩
  rw [hs n (by simp)] at hk
  cases hk

/-- A node is cut off exactly if the one before it ends the execution or is cut off itself, unless
it is a handler. -/
theorem cut_next_iff (h : Forest nodes) {m n : FlowNode} {p : String}
    (hin : [m, n] <:+: childrenOf nodes p) (hk : n.kind.isHandler = false) :
    Cut nodes n ↔ m.kind.isTerminal ∨ Cut nodes m := by
  obtain ⟨front, back, hin⟩ := hin
  have hm : childrenOf nodes p = front ++ m :: (n :: back) := by rw [← hin]; simp
  have hn : childrenOf nodes p = (front ++ [m]) ++ n :: back := by rw [← hin]; simp
  constructor
  · rintro ⟨q, before, z, between, after, he, ht, hs⟩
    have he' : childrenOf nodes q = (before ++ z :: between) ++ n :: after := by rw [he]; simp
    obtain ⟨rfl, hl, -⟩ := h.split_unique hn he'
    rcases List.eq_nil_or_concat between with rfl | ⟨init, x, rfl⟩
    · obtain ⟨-, hz⟩ := List.append_inj' hl rfl
      obtain rfl := List.singleton_inj.mp hz
      exact .inl ht
    · rw [List.concat_eq_append] at hl hs he
      have hl' : front ++ [m] = (before ++ z :: init) ++ [x] := by rw [hl]; simp
      obtain ⟨-, hx⟩ := List.append_inj' hl' rfl
      obtain rfl := List.singleton_inj.mp hx
      refine .inr ⟨p, before, z, init, n :: after, by rw [he]; simp, ht, fun s hs' => hs s ?_⟩
      exact List.mem_append_left _ hs'
  · rintro (ht | ⟨q, before, z, between, after, he, ht, hs⟩)
    · exact ⟨p, front, m, [], back, hm, ht, by simpa using hk⟩
    · have he' : childrenOf nodes q = (before ++ z :: between) ++ m :: after := by rw [he]; simp
      obtain ⟨rfl, -, rfl⟩ := h.split_unique hm he'
      refine ⟨p, before, z, between ++ [m], back, by rw [he]; simp, ht, fun s hs' => ?_⟩
      rcases List.mem_append.mp hs' with hs' | hs'
      · exact hs s hs'
      · rw [List.mem_singleton.mp hs']
        exact hk

end Forest

namespace IsFlow
variable {m n : FlowNode} {c : EdgeClass} {l : Option String}

theorem rootOf_of_leads (h : IsFlow nodes) (hl : Leads nodes m n c l) (r : FlowNode) :
    RootOf nodes r m ↔ RootOf nodes r n := by
  obtain ⟨hm, hn, ⟨b, d, hb, hbp, hnp, -⟩ | ⟨hp, -⟩ | ⟨⟨p, hp, hmp, hnp⟩, -⟩⟩ := hl.ends h
  · rw [h.rootOf_iff hn hb hnp, h.rootOf_iff hb hm hbp]
  · rw [h.rootOf_iff hn hm hp]
  · rw [h.rootOf_iff hn hp hnp, h.rootOf_iff hm hp hmp]

/-- Nothing cuts off a branch: the arms of a condition are no exits. -/
theorem not_cut_of_branch (h : IsFlow nodes) {b : FlowNode} (hm : m ∈ nodes)
    (hb : b ∈ childrenOf nodes m.id) (hk : b.kind = .branch) : ¬ Cut nodes b := by
  rintro ⟨p, before, z, between, after, he, ht, -⟩
  have hc : b ∈ childrenOf nodes p := by rw [he]; simp
  obtain rfl := h.eq_of_mem_childrenOf hb hc
  have hz : z ∈ childrenOf nodes m.id := by rw [he]; simp
  rw [h.condition_children m hm ((h.branch_iff hm hb).mp hk) z hz] at ht
  cases ht

/-- An edge from a node that is not dead leads to one that is not dead. -/
theorem live_of_leads (h : IsFlow nodes) (hl : Leads nodes m n c l) (hlive : ¬ Dead nodes m) :
    ¬ Dead nodes n := by
  cases hl with
  | @arm _ b _ d hm hb hd hf =>
    obtain ⟨hbn, hbp⟩ := h.mem_childrenOf.mp hb
    obtain ⟨hn, hnp⟩ := h.mem_childrenOf.mp (List.mem_of_head? hf)
    have hk := (h.branch_isSome b hbn).mp (by rw [hd]; rfl)
    rw [h.dead_iff hn hbn hnp, h.dead_iff hbn hm hbp, not_or, not_or]
    exact ⟨h.not_cut_of_first hf, h.not_cut_of_branch hm hb hk, hlive⟩
  | first hm _ _ hf =>
    obtain ⟨hn, hnp⟩ := h.mem_childrenOf.mp (List.mem_of_head? hf)
    rw [h.dead_iff hn hm hnp, not_or]
    exact ⟨h.not_cut_of_first hf, hlive⟩
  | @next p _ _ hp _ hin ht =>
    obtain ⟨hm, hmp⟩ := h.mem_childrenOf.mp (mem_of_neighbours hin).1
    obtain ⟨hn, hnp⟩ := h.mem_childrenOf.mp (mem_of_neighbours hin).2
    rw [h.dead_iff hm hp hmp, not_or] at hlive
    rw [h.dead_iff hn hp hnp, not_or]
    refine ⟨?_, hlive.2⟩
    cases hk : n.kind.isHandler with
    | true => exact Forest.not_cut_of_handler hk
    | false =>
      rw [h.cut_next_iff hin hk, not_or]
      exact ⟨by simp [ht], hlive.1⟩
  | handler hm _ hc hk =>
    obtain ⟨hn, hnp⟩ := h.mem_childrenOf.mp hc
    rw [h.dead_iff hn hm hnp, not_or]
    exact ⟨Forest.not_cut_of_handler hk, hlive⟩

/-- Every drawn node that is not dead and has a parent is entered from one that is not dead. -/
theorem exists_leads (h : IsFlow nodes) {p : FlowNode} (hn : n ∈ nodes) (hd : n.isDrawn)
    (hlive : ¬ Dead nodes n) (hp : p ∈ nodes) (hnp : n.parent = some p.id) :
    ∃ m c l, Leads nodes m n c l ∧ ¬ Dead nodes m := by
  have hc : n ∈ childrenOf nodes p.id := h.mem_childrenOf.mpr ⟨hn, hnp⟩
  have hnb : n.kind ≠ .branch := by simpa [isDrawn] using hd
  have hpc : p.kind ≠ .condition := mt (h.branch_iff hp hc).mpr hnb
  rw [h.dead_iff hn hp hnp, not_or] at hlive
  obtain ⟨front, back, he⟩ := List.append_of_mem hc
  rcases List.eq_nil_or_concat front with rfl | ⟨init, m, rfl⟩
  · have hf : (childrenOf nodes p.id).head? = some n := by rw [he]; rfl
    by_cases hpb : p.kind = .branch
    · obtain ⟨q, hq, hpq, hqk⟩ := h.branch_parent p hp hpb
      obtain ⟨d, hd⟩ := Option.isSome_iff_exists.mp ((h.branch_isSome p hp).mpr hpb)
      have hlq := hlive.2
      rw [h.dead_iff hp hq hpq, not_or] at hlq
      exact ⟨q, _, _, .arm hq (h.mem_childrenOf.mpr ⟨hp, hpq⟩) hd hf, hlq.2⟩
    · exact ⟨p, _, _, .first hp hpc hpb hf, hlive.2⟩
  · have hin : [m, n] <:+: childrenOf nodes p.id := ⟨init, back, by rw [he]; simp⟩
    cases hk : n.kind.isHandler with
    | true =>
      obtain ⟨q, hq, hqp, hqk⟩ := h.handler_parent n hn hk
      obtain rfl := h.eq_of_parent hp hq hnp hqp
      exact ⟨p, _, _, .handler hp hqk hc hk, hlive.2⟩
    | false =>
      have hcut := hlive.1
      rw [h.cut_next_iff hin hk, not_or] at hcut
      obtain ⟨hm, hmp⟩ := h.mem_childrenOf.mp (mem_of_neighbours hin).1
      refine ⟨m, _, _, .next hp hpc hin (by simpa using hcut.1), ?_⟩
      rw [h.dead_iff hm hp hmp, not_or]
      exact ⟨hcut.2, hlive.2⟩

theorem reaches_of_live (h : IsFlow nodes) : ∀ n ∈ nodes, n.isDrawn → ¬ Dead nodes n →
    ∀ r, RootOf nodes r n → Reaches nodes r.id n.id := by
  refine h.induction fun n hn ih hd hlive r hr => ?_
  cases hp : n.parent with
  | none =>
    obtain ⟨-, -, rfl | ha⟩ := hr
    · exact .refl
    · exact absurd ha (h.not_ancestor_root hn hp)
  | some p =>
    obtain ⟨p, hpm, rfl, -⟩ := h.parent_mem n hn p hp
    obtain ⟨m, c, l, hl, hmlive⟩ := h.exists_leads hn hd hlive hpm hp
    have hm := (hl.ends h).1
    have hreach := ih m hm (hl.precedes h) (hl.drawn h).1 hmlive r ((h.rootOf_of_leads hl r).mpr hr)
    exact hreach.tail ⟨⟨m.id, n.id, c, l⟩, h.mem_edges_iff.mpr ⟨m, n, hl, rfl, rfl⟩, rfl, rfl⟩

theorem live_of_reaches (h : IsFlow nodes) {r : FlowNode} (hr : r ∈ nodes)
    (hlive : ¬ Dead nodes r) {t : String} (hreach : Reaches nodes r.id t) :
    ∀ n ∈ nodes, n.id = t → ¬ Dead nodes n := by
  induction hreach with
  | refl =>
    intro n hn hid
    rw [h.eq_of_id hn hr hid]
    exact hlive
  | tail _ hstep ih =>
    intro n hn hid
    obtain ⟨e, he, rfl, rfl⟩ := hstep
    obtain ⟨m, k, hl, hs, ht⟩ := h.mem_edges_iff.mp he
    obtain ⟨hm, hk, -⟩ := hl.ends h
    obtain rfl := h.eq_of_id hn hk (hid.trans ht)
    exact h.live_of_leads hl (ih m hm hs.symm)

theorem not_dead_of_root (h : IsFlow nodes) (hn : n ∈ nodes) (hp : n.parent = none) :
    ¬ Dead nodes n := by
  rintro ⟨a, ha, rfl | han, hcut⟩
  · exact h.not_cut_of_root hp hcut
  · exact h.not_ancestor_root hn hp han

end IsFlow
end FlowNode

open FlowNode

/-- In both views, a drawn node is reached from the root of its tree exactly if it is not dead. -/
theorem reaches_iff_not_dead (v : View) (src : Source) (t : Tree) {n : FlowNode}
    (hn : n ∈ v.apply (extract src t)) (hd : n.isDrawn) :
    let nodes := v.apply (extract src t)
    ∃ r, RootOf nodes r n ∧ (∀ r', RootOf nodes r' n → r' = r) ∧
      (Reaches nodes r.id n.id ↔ ¬ Dead nodes n) := by
  intro nodes
  have h : IsFlow nodes := isFlow_view v src t
  obtain ⟨r, hr, huniq⟩ := h.exists_root n hn
  refine ⟨r, hr, huniq, ?_, fun hlive => h.reaches_of_live n hn hd hlive r hr⟩
  intro hreach
  exact h.live_of_reaches hr.1 (h.not_dead_of_root hr.1 hr.2.1) hreach n hn rfl

/-- The tree of a function that returns before its last call. -/
def callAfterReturn : Tree :=
  let mark (type : String) (start stop : Int) (field : Option String) : Mark :=
    ⟨type, true, false, false, ⟨start, stop⟩, field⟩
  .node (mark "program" 0 29 none) [
    .node (mark "function_declaration" 0 29 none) [
      .node (mark "identifier" 9 10 (some "name")) [],
      .node (mark "statement_block" 13 29 (some "body")) [
        .node (mark "return_statement" 15 22 none) [],
        .node (mark "expression_statement" 23 27 none) [
          .node (mark "call_expression" 23 26 none) [
            .node (mark "identifier" 23 24 (some "function")) []]]]]]

/-- The node of that call. -/
def lastCall : FlowNode where
  kind := .genericCall
  label := "g()"
  range := ⟨23, 27⟩
  loc := ⟨⟨1, 23⟩, ⟨1, 27⟩⟩
  detail := some "g();"
  snippet := some "g();"
  id := "node_2"
  parent := some "node_0"

/-- The node of the exit before it. -/
def exitBeforeCall : FlowNode where
  kind := .returnStmt
  label := "return"
  range := ⟨15, 22⟩
  loc := ⟨⟨1, 15⟩, ⟨1, 22⟩⟩
  snippet := some "return;"
  id := "node_1"
  parent := some "node_0"

/-- The exit kills the call, so no path leads to it, while one leads to the exit itself. -/
theorem reaches_iff_not_dead_lastCall :
    let nodes := View.fullOperations.apply
      (extract (.ofString "function f() { return; g(); }") callAfterReturn)
    lastCall ∈ nodes ∧ lastCall.isDrawn ∧ Dead nodes lastCall ∧ exitBeforeCall ∈ nodes ∧
      ∃ r, RootOf nodes r lastCall ∧ (∀ r', RootOf nodes r' lastCall → r' = r) ∧
        (Reaches nodes r.id lastCall.id ↔ ¬ Dead nodes lastCall) ∧
        ¬ Reaches nodes r.id lastCall.id ∧ Reaches nodes r.id exitBeforeCall.id := by
  intro nodes
  have hmem : lastCall ∈ nodes := by decide +kernel
  have hchildren : childrenOf nodes "node_0" = [exitBeforeCall, lastCall] := by decide +kernel
  have hcut : Cut nodes lastCall := by
    refine ⟨"node_0", [], exitBeforeCall, [], [], hchildren, rfl, ?_⟩
    intro s hs
    rw [List.mem_singleton.mp hs]
    rfl
  have hdead : Dead nodes lastCall := ⟨lastCall, hmem, .inl rfl, hcut⟩
  obtain ⟨r, hr, huniq, hiff⟩ := reaches_iff_not_dead .fullOperations _ callAfterReturn hmem rfl
  refine ⟨hmem, rfl, hdead, by decide +kernel, r, hr, huniq, hiff, fun hp => hiff.mp hp hdead, ?_⟩
  have hroot : r.id = "node_0" := by
    have hroots : ∀ n ∈ nodes, n.parent = none → n.id = "node_0" := by decide +kernel
    exact hroots r hr.1 hr.2.1
  rw [hroot]
  exact .single ⟨⟨"node_0", "node_1", .sequential, none⟩, by decide +kernel, rfl, rfl⟩

end Flowchart
