import Flowchart.Diagram.Edge
import Flowchart.Proofs.Flow.LogicView
import Mathlib.Data.List.Infix

/-! The edges of a flow, said by rules: a node leads to its first child, each child to the next one,
a condition into its arms and a try statement to its handlers. -/
namespace Flowchart

/-- The class of the edges into an arm. -/
def Branch.edgeClass : Branch → EdgeClass
  | onTrue => .onTrue
  | onFalse => .onFalse

namespace FlowNode
variable {nodes : List FlowNode}

/-- An edge of the given class and label leads from one node to another. Branches are passed over:
their conditions lead to what stands below them. -/
inductive Leads (nodes : List FlowNode) : FlowNode → FlowNode → EdgeClass → Option String → Prop
  | arm {m b n : FlowNode} {d : Branch} : m ∈ nodes → b ∈ childrenOf nodes m.id →
      b.branch = some d → (childrenOf nodes b.id).head? = some n →
      Leads nodes m n d.edgeClass (some d.name)
  | first {m n : FlowNode} : m ∈ nodes → m.kind ≠ .condition → m.kind ≠ .branch →
      (childrenOf nodes m.id).head? = some n → Leads nodes m n (entryClass m n) none
  | next {p m n : FlowNode} : p ∈ nodes → p.kind ≠ .condition → [m, n] <:+: childrenOf nodes p.id →
      m.kind.isTerminal = false → Leads nodes m n .sequential none
  | handler {m n : FlowNode} : m ∈ nodes → m.kind = .tryStmt → n ∈ childrenOf nodes m.id →
      n.kind.isHandler → Leads nodes m n (entryClass m n) none

private theorem mem_zip_tail_iff {α : Type} {l : List α} {a b : α} :
    (a, b) ∈ l.zip l.tail ↔ [a, b] <:+: l := by
  induction l with
  | nil => simp
  | cons x l ih =>
    cases l with
    | nil => simp [List.infix_cons_iff]
    | cons y l =>
      rw [List.tail_cons, List.zip_cons_cons, List.mem_cons, List.infix_cons_iff]
      refine or_congr ?_ ih
      simp [List.cons_prefix_cons]

theorem mem_of_neighbours {group : List FlowNode} {m n : FlowNode} (h : [m, n] <:+: group) :
    m ∈ group ∧ n ∈ group :=
  ⟨h.subset (List.mem_cons_self ..), h.subset (List.mem_cons_of_mem _ (List.mem_singleton_self _))⟩

namespace IsFlow

theorem parent?_eq (h : IsFlow nodes) {p c : FlowNode} (hp : p ∈ nodes)
    (hc : c ∈ childrenOf nodes p.id) : parent? nodes c = some p := by
  obtain ⟨hc, hpar⟩ := h.mem_childrenOf.mp hc
  rw [parent?, h.parentLink_eq hc, hpar, Option.bind_some]
  exact h.withId?_eq_some_iff.mpr ⟨hp, rfl⟩

theorem of_parent?_eq (h : IsFlow nodes) {p c : FlowNode} (hc : c ∈ nodes)
    (hp : parent? nodes c = some p) : p ∈ nodes ∧ c ∈ childrenOf nodes p.id := by
  obtain ⟨id, hid, hw⟩ := Option.bind_eq_some_iff.mp hp
  obtain ⟨hp, rfl⟩ := h.withId?_eq_some_iff.mp hw
  rw [h.parentLink_eq hc] at hid
  exact ⟨hp, h.mem_childrenOf.mpr ⟨hc, hid⟩⟩

/-- Only the children of conditions are branches. -/
theorem branch_iff (h : IsFlow nodes) {p c : FlowNode} (hp : p ∈ nodes)
    (hc : c ∈ childrenOf nodes p.id) : c.kind = .branch ↔ p.kind = .condition := by
  constructor
  · intro hk
    obtain ⟨hc, hpar⟩ := h.mem_childrenOf.mp hc
    obtain ⟨q, hq, hpar', hqk⟩ := h.branch_parent c hc hk
    obtain rfl := h.eq_of_parent hp hq hpar hpar'
    exact hqk
  · exact fun hk => h.condition_children p hp hk c hc

theorem drawn_children (h : IsFlow nodes) {p : FlowNode} (hp : p ∈ nodes)
    (hk : p.kind ≠ .condition) :
    (childrenOf nodes p.id).filter isDrawn = childrenOf nodes p.id := by
  rw [List.filter_eq_self]
  intro c hc
  have hb := mt (h.branch_iff hp hc).mp hk
  simpa [isDrawn] using hb

theorem drawn_arms (h : IsFlow nodes) {p : FlowNode} (hp : p ∈ nodes)
    (hk : p.kind = .condition) : (childrenOf nodes p.id).filter isDrawn = [] := by
  rw [List.filter_eq_nil_iff]
  intro c hc
  simp [isDrawn, h.condition_children p hp hk c hc]

/-- The arm of a branch is entered from the branch's condition. -/
theorem mem_entryEdge_iff (h : IsFlow nodes) {e : Edge} :
    e ∈ nodes.filterMap (entryEdge nodes) ↔
      (∃ m b n d, m ∈ nodes ∧ b ∈ childrenOf nodes m.id ∧ b.branch = some d ∧
        (childrenOf nodes b.id).head? = some n ∧ e = ⟨m.id, n.id, d.edgeClass, some d.name⟩) ∨
      ∃ m n, m ∈ nodes ∧ m.kind ≠ .condition ∧ m.kind ≠ .branch ∧
        (childrenOf nodes m.id).head? = some n ∧ e = ⟨m.id, n.id, entryClass m n, none⟩ := by
  rw [List.mem_filterMap]
  constructor
  · rintro ⟨c, hc, he⟩
    obtain ⟨p, hp, he⟩ := Option.bind_eq_some_iff.mp he
    obtain ⟨hpm, hcp⟩ := h.of_parent?_eq hc hp
    by_cases hk : c.kind = .branch
    · rw [if_pos hk, armEdge] at he
      obtain ⟨n, hn, he⟩ := Option.map_eq_some_iff.mp he
      obtain ⟨d, hd⟩ := Option.isSome_iff_exists.mp ((h.branch_isSome c hc).mpr hk)
      refine .inl ⟨p, c, n, d, hpm, hcp, hd, hn, ?_⟩
      rw [← he, hd]
      cases d <;> rfl
    · rw [if_neg hk] at he
      have hcond := mt (h.branch_iff hpm hcp).mpr hk
      by_cases hpk : p.kind = .branch
      · rw [if_pos hpk] at he
        cases he
      · simp only [if_neg hpk, h.drawn_children hpm hcond] at he
        split_ifs at he with hfirst
        cases hn : (childrenOf nodes p.id).head? with
        | none => simp [hn] at hfirst
        | some n =>
          have hid : n.id = c.id := by simpa [hn] using hfirst
          have hmem := (h.mem_childrenOf.mp (List.mem_of_head? hn)).1
          obtain rfl := h.eq_of_id hmem hc hid
          exact .inr ⟨p, n, hpm, hcond, hpk, hn, (Option.some.inj he).symm⟩
  · rintro (⟨m, b, n, d, hm, hb, hd, hn, rfl⟩ | ⟨m, n, hm, hcond, hbr, hn, rfl⟩)
    · have hmem := (h.mem_childrenOf.mp hb).1
      have hk := (h.branch_isSome b hmem).mp (by rw [hd]; rfl)
      refine ⟨b, hmem, ?_⟩
      rw [entryEdge, h.parent?_eq hm hb, Option.bind_some, if_pos hk, armEdge, hn, hd]
      cases d <;> rfl
    · have hc := List.mem_of_head? hn
      have hk := mt (h.branch_iff hm hc).mp hcond
      refine ⟨n, (h.mem_childrenOf.mp hc).1, ?_⟩
      rw [entryEdge, h.parent?_eq hm hc, Option.bind_some, if_neg hk, if_neg hbr]
      simp [h.drawn_children hm hcond, hn]

theorem mem_chainEdges_iff (h : IsFlow nodes) {e : Edge} :
    e ∈ (parentIds nodes).flatMap (fun id => chainEdges (childrenOf nodes id)) ↔
      ∃ p m n, p ∈ nodes ∧ p.kind ≠ .condition ∧ [m, n] <:+: childrenOf nodes p.id ∧
        m.kind.isTerminal = false ∧ e = ⟨m.id, n.id, .sequential, none⟩ := by
  have hgroup {group : List FlowNode} (hd : group.filter isDrawn = group) :
      e ∈ chainEdges group ↔ ∃ m n, [m, n] <:+: group ∧ m.kind.isTerminal = false ∧
        e = ⟨m.id, n.id, .sequential, none⟩ := by
    simp only [chainEdges, hd, List.mem_map, List.mem_filter, Prod.exists, mem_zip_tail_iff]
    constructor
    · rintro ⟨m, n, ⟨hin, ht⟩, he⟩
      exact ⟨m, n, hin, by simpa using ht, he.symm⟩
    · rintro ⟨m, n, hin, ht, he⟩
      exact ⟨m, n, ⟨hin, by simpa using ht⟩, he.symm⟩
  rw [List.mem_flatMap]
  constructor
  · rintro ⟨id, hid, he⟩
    rw [parentIds, List.mem_eraseDups, List.mem_filterMap] at hid
    obtain ⟨c, hc, hlink⟩ := hid
    rw [h.parentLink_eq hc] at hlink
    obtain ⟨p, hp, rfl, -⟩ := h.parent_mem c hc id hlink
    by_cases hk : p.kind = .condition
    · rw [chainEdges, h.drawn_arms hp hk] at he
      cases he
    · obtain ⟨m, n, hin, ht, he⟩ := (hgroup (h.drawn_children hp hk)).mp he
      exact ⟨p, m, n, hp, hk, hin, ht, he⟩
  · rintro ⟨p, m, n, hp, hk, hin, ht, he⟩
    refine ⟨p.id, ?_, (hgroup (h.drawn_children hp hk)).mpr ⟨m, n, hin, ht, he⟩⟩
    obtain ⟨hm, hpar⟩ := h.mem_childrenOf.mp (mem_of_neighbours hin).1
    rw [parentIds, List.mem_eraseDups, List.mem_filterMap]
    exact ⟨m, hm, by rw [h.parentLink_eq hm, hpar]⟩

theorem mem_handlerEdge_iff (h : IsFlow nodes) {e : Edge} :
    e ∈ nodes.filterMap (handlerEdge nodes) ↔
      ∃ m n, m ∈ nodes ∧ m.kind = .tryStmt ∧ n ∈ childrenOf nodes m.id ∧ n.kind.isHandler ∧
        e = ⟨m.id, n.id, entryClass m n, none⟩ := by
  rw [List.mem_filterMap]
  constructor
  · rintro ⟨c, hc, he⟩
    obtain ⟨p, hp, he⟩ := Option.bind_eq_some_iff.mp he
    obtain ⟨hp, hk⟩ := Option.filter_eq_some_iff.mp hp
    obtain ⟨hp, hcp⟩ := h.of_parent?_eq hc hp
    have hk : p.kind = .tryStmt := by simpa using hk
    refine ⟨p, c, hp, hk, hcp, ?_⟩
    split at he
    · rename_i hc
      exact ⟨by rw [hc]; rfl, by simpa [entryClass, hk, hc] using he.symm⟩
    · rename_i hc
      exact ⟨by rw [hc]; rfl, by simpa [entryClass, hk, hc] using he.symm⟩
    · cases he
  · rintro ⟨m, n, hm, hk, hn, hh, rfl⟩
    refine ⟨n, (h.mem_childrenOf.mp hn).1, ?_⟩
    rw [handlerEdge, h.parent?_eq hm hn, Option.filter_some_pos (by simpa using hk),
      Option.bind_some]
    cases hc : n.kind <;> simp [hc, NodeKind.isHandler] at hh
    · simp [entryClass, hk, hc]
    · simp [entryClass, hk, hc]

end IsFlow

namespace Leads
variable {m n : FlowNode} {c : EdgeClass} {l : Option String}

/-- How the ends of an edge are related, and what its class and its label follow from. -/
theorem ends (h : IsFlow nodes) (hl : Leads nodes m n c l) : m ∈ nodes ∧ n ∈ nodes ∧
    ((∃ b d, b ∈ nodes ∧ b.parent = some m.id ∧ n.parent = some b.id ∧ b.branch = some d ∧
        c = d.edgeClass ∧ l = some d.name) ∨
      (n.parent = some m.id ∧ c = entryClass m n ∧ l = none) ∨
      ((∃ p ∈ nodes, m.parent = some p.id ∧ n.parent = some p.id) ∧ Precedes m n ∧
        c = .sequential ∧ l = none)) := by
  cases hl with
  | @arm _ b _ d hm hb hd hn =>
    obtain ⟨hb, hbp⟩ := h.mem_childrenOf.mp hb
    obtain ⟨hn, hnp⟩ := h.mem_childrenOf.mp (List.mem_of_head? hn)
    exact ⟨hm, hn, .inl ⟨b, d, hb, hbp, hnp, hd, rfl, rfl⟩⟩
  | first hm _ _ hn =>
    obtain ⟨hn, hnp⟩ := h.mem_childrenOf.mp (List.mem_of_head? hn)
    exact ⟨hm, hn, .inr (.inl ⟨hnp, rfl, rfl⟩)⟩
  | @next p _ _ hp _ hin _ =>
    have hlt := (h.children_ordered p.id).sublist hin.sublist
    obtain ⟨hm, hmp⟩ := h.mem_childrenOf.mp (mem_of_neighbours hin).1
    obtain ⟨hn, hnp⟩ := h.mem_childrenOf.mp (mem_of_neighbours hin).2
    exact ⟨hm, hn, .inr (.inr ⟨⟨p, hp, hmp, hnp⟩, List.pairwise_pair.mp hlt, rfl, rfl⟩)⟩
  | handler hm _ hn _ =>
    obtain ⟨hn, hnp⟩ := h.mem_childrenOf.mp hn
    exact ⟨hm, hn, .inr (.inl ⟨hnp, rfl, rfl⟩)⟩

theorem precedes (h : IsFlow nodes) (hl : Leads nodes m n c l) : Precedes m n := by
  obtain ⟨hm, hn, ⟨b, d, hb, hbp, hnp, -⟩ | ⟨hp, -⟩ | ⟨-, hlt, -⟩⟩ := hl.ends h
  · exact (h.precedes_of_parent hm hb hbp).trans (h.precedes_of_parent hb hn hnp)
  · exact h.precedes_of_parent hm hn hp
  · exact hlt

/-- At most one edge leads from one node to another. -/
theorem unique (h : IsFlow nodes) {c' : EdgeClass} {l' : Option String}
    (hl : Leads nodes m n c l) (hl' : Leads nodes m n c' l') : c = c' ∧ l = l' := by
  obtain ⟨hm, hn, hcase⟩ := hl.ends h
  obtain ⟨-, -, hcase'⟩ := hl'.ends h
  have hself : m.parent ≠ some m.id := fun hp =>
    (h.precedes_of_parent hm hm hp).asymm (h.precedes_of_parent hm hm hp)
  have hsibling (hp : n.parent = some m.id) :
      ¬ ∃ p ∈ nodes, m.parent = some p.id ∧ n.parent = some p.id := by
    rintro ⟨p, hpm, hmp, hp'⟩
    obtain rfl := h.eq_of_parent hm hpm hp hp'
    exact hself hmp
  have harm {b : FlowNode} (hb : b ∈ nodes) (hbp : b.parent = some m.id)
      (hnp : n.parent = some b.id) :
      n.parent ≠ some m.id ∧ ¬ ∃ p ∈ nodes, m.parent = some p.id ∧ n.parent = some p.id := by
    constructor
    · intro hp
      obtain rfl := h.eq_of_parent hb hm hnp hp
      exact hself hbp
    · rintro ⟨p, hp, hmp, hp'⟩
      obtain rfl := h.eq_of_parent hb hp hnp hp'
      exact (h.precedes_of_parent hb hm hmp).asymm (h.precedes_of_parent hm hb hbp)
  rcases hcase with ⟨b, d, hb, hbp, hnp, hd, rfl, rfl⟩ | ⟨hp, rfl, rfl⟩ | ⟨hp, -, rfl, rfl⟩
  · rcases hcase' with ⟨b', d', hb', -, hnp', hd', rfl, rfl⟩ | ⟨hp', -⟩ | ⟨hp', -⟩
    · obtain rfl := h.eq_of_parent hb hb' hnp hnp'
      obtain rfl := Option.some.inj (hd.symm.trans hd')
      exact ⟨rfl, rfl⟩
    · exact absurd hp' (harm hb hbp hnp).1
    · exact absurd hp' (harm hb hbp hnp).2
  · rcases hcase' with ⟨b', d', hb', hbp', hnp', -⟩ | ⟨-, rfl, rfl⟩ | ⟨hp', -⟩
    · exact absurd hp (harm hb' hbp' hnp').1
    · exact ⟨rfl, rfl⟩
    · exact absurd hp' (hsibling hp)
  · rcases hcase' with ⟨b', d', hb', hbp', hnp', -⟩ | ⟨hp', -⟩ | ⟨-, -, rfl, rfl⟩
    · exact absurd hp (harm hb' hbp' hnp').2
    · exact absurd hp (hsibling hp')
    · exact ⟨rfl, rfl⟩

/-- Branches are neither left nor entered by an edge. -/
theorem drawn (h : IsFlow nodes) (hl : Leads nodes m n c l) : m.isDrawn ∧ n.isDrawn := by
  have hdraw {p k : FlowNode} (hp : p ∈ nodes) (hk : k ∈ childrenOf nodes p.id)
      (hc : p.kind ≠ .condition) : k.isDrawn := by
    simpa [isDrawn] using mt (h.branch_iff hp hk).mp hc
  have hkind {k : FlowNode} {x : NodeKind} (hk : k.kind = x) (hx : x ≠ .branch) : k.isDrawn := by
    simpa [isDrawn, hk] using hx
  cases hl with
  | @arm _ b _ d hm hb hd hn =>
    have hbn := (h.mem_childrenOf.mp hb).1
    have hbk := (h.branch_isSome b hbn).mp (by rw [hd]; rfl)
    exact ⟨hkind ((h.branch_iff hm hb).mp hbk) nofun,
      hdraw hbn (List.mem_of_head? hn) (by rw [hbk]; nofun)⟩
  | first hm hc hb hn => exact ⟨by simpa [isDrawn] using hb, hdraw hm (List.mem_of_head? hn) hc⟩
  | next hp hc hin _ =>
    exact ⟨hdraw hp (mem_of_neighbours hin).1 hc, hdraw hp (mem_of_neighbours hin).2 hc⟩
  | handler hm hk hn _ => exact ⟨hkind hk nofun, hdraw hm hn (by rw [hk]; nofun)⟩

end Leads
end FlowNode

namespace Edge

/-- Ids of flow nodes can be read off the key of an edge. -/
theorem key_injective {i j k l : Nat}
    (h : nodeId i ++ "_" ++ nodeId j = nodeId k ++ "_" ++ nodeId l) : i = k ∧ j = l := by
  have hd := congrArg String.toList h
  simp only [String.toList_append, toList_nodeId, List.append_assoc] at hd
  have hd := List.append_cancel_left hd
  -- The digits of the first number end at the first underscore.
  have htake (n : Nat) (r : List Char) :
      (Nat.toDigits 10 n ++ ("_".toList ++ r)).takeWhile (· ≠ '_') = Nat.toDigits 10 n := by
    rw [List.takeWhile_append_of_pos]
    · simp
    · intro c hc
      rw [decide_eq_true_iff]
      rintro rfl
      exact Nat.underscore_not_in_toDigits hc
  have hik : nodeId i = nodeId k := by
    apply String.toList_inj.mp
    rw [toList_nodeId, toList_nodeId, ← htake i, hd, htake]
  obtain rfl := nodeId_inj.mp hik
  have hjl := List.append_cancel_left (List.append_cancel_left (List.append_cancel_left hd))
  refine ⟨rfl, nodeId_inj.mp (String.toList_inj.mp ?_)⟩
  rw [toList_nodeId, toList_nodeId, hjl]

theorem mem_distinct_iff {es : List Edge} (h : ∀ a ∈ es, ∀ b ∈ es, a.key = b.key → a = b)
    {e : Edge} : e ∈ distinct es ↔ e ∈ es := by
  induction es with
  | nil => rfl
  | cons x es ih =>
    have ih := ih fun a ha b hb => h a (List.mem_cons_of_mem _ ha) b (List.mem_cons_of_mem _ hb)
    rw [distinct, List.mem_cons, List.mem_filter, ih, List.mem_cons]
    constructor
    · exact Or.imp_right And.left
    · rintro (rfl | he)
      · exact .inl rfl
      · by_cases hk : e.key = x.key
        · exact .inl (h e (List.mem_cons_of_mem _ he) x (List.mem_cons_self ..) hk)
        · exact .inr ⟨he, by simpa using hk⟩

end Edge

namespace FlowNode
variable {nodes : List FlowNode}

/-- The edges that the three passes give, repetitions among them. -/
def candidates (nodes : List FlowNode) : List Edge :=
  nodes.filterMap (entryEdge nodes) ++
    (parentIds nodes).flatMap (fun id => chainEdges (childrenOf nodes id)) ++
    nodes.filterMap (handlerEdge nodes)

theorem IsFlow.mem_candidates_iff (h : IsFlow nodes) {e : Edge} : e ∈ candidates nodes ↔
    ∃ m n, Leads nodes m n e.cls e.label ∧ e.source = m.id ∧ e.target = n.id := by
  rw [candidates, List.mem_append, List.mem_append, h.mem_entryEdge_iff, h.mem_chainEdges_iff,
    h.mem_handlerEdge_iff]
  constructor
  · rintro (((⟨m, b, n, d, hm, hb, hd, hn, rfl⟩ | ⟨m, n, hm, hc, hb, hn, rfl⟩) |
      ⟨p, m, n, hp, hc, hin, ht, rfl⟩) | ⟨m, n, hm, hk, hn, hh, rfl⟩)
    · exact ⟨m, n, .arm hm hb hd hn, rfl, rfl⟩
    · exact ⟨m, n, .first hm hc hb hn, rfl, rfl⟩
    · exact ⟨m, n, .next hp hc hin ht, rfl, rfl⟩
    · exact ⟨m, n, .handler hm hk hn hh, rfl, rfl⟩
  · obtain ⟨source, target, cls, label⟩ := e
    rintro ⟨m, n, hl, rfl, rfl⟩
    cases hl with
    | @arm _ b _ d hm hb hd hn => exact .inl (.inl (.inl ⟨m, b, n, d, hm, hb, hd, hn, rfl⟩))
    | first hm hc hb hn => exact .inl (.inl (.inr ⟨m, n, hm, hc, hb, hn, rfl⟩))
    | @next p _ _ hp hc hin ht => exact .inl (.inr ⟨p, m, n, hp, hc, hin, ht, rfl⟩)
    | handler hm hk hn hh => exact .inr ⟨m, n, hm, hk, hn, hh, rfl⟩

/-- Two candidates of one key join the same nodes and so are the same edge. -/
theorem IsFlow.candidate_eq_of_key (h : IsFlow nodes) :
    ∀ a ∈ candidates nodes, ∀ b ∈ candidates nodes, a.key = b.key → a = b := by
  intro a ha b hb hk
  obtain ⟨m, n, hl, hs, ht⟩ := h.mem_candidates_iff.mp ha
  obtain ⟨m', n', hl', hs', ht'⟩ := h.mem_candidates_iff.mp hb
  obtain ⟨hm, hn, -⟩ := hl.ends h
  obtain ⟨hm', hn', -⟩ := hl'.ends h
  obtain ⟨i, hi⟩ := h.numbered m hm
  obtain ⟨j, hj⟩ := h.numbered n hn
  obtain ⟨i', hi'⟩ := h.numbered m' hm'
  obtain ⟨j', hj'⟩ := h.numbered n' hn'
  simp only [Edge.key, hs, ht, hs', ht', hi, hj, hi', hj'] at hk
  obtain ⟨rfl, rfl⟩ := Edge.key_injective hk
  obtain rfl := h.eq_of_id hm hm' (hi.trans hi'.symm)
  obtain rfl := h.eq_of_id hn hn' (hj.trans hj'.symm)
  obtain ⟨hc, hlab⟩ := hl.unique h hl'
  cases a
  cases b
  simp_all

/-- The edges of a flow are those that the rules give. -/
theorem IsFlow.mem_edges_iff (h : IsFlow nodes) {e : Edge} :
    e ∈ edges nodes ↔ ∃ m n, Leads nodes m n e.cls e.label ∧ e.source = m.id ∧ e.target = n.id :=
  (Edge.mem_distinct_iff h.candidate_eq_of_key).trans h.mem_candidates_iff

end FlowNode
end Flowchart
