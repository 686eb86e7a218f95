import Flowchart.Proofs.Flow.Numbering

/-! Which nodes may stand right below which, in an outline and in its numbered list. -/
namespace Flowchart

namespace NodeKind

/-- The handlers of a try statement. -/
def isHandler : NodeKind → Bool
  | catchClause | finallyClause => true
  | _ => false

/-- A part of a larger construct, never a statement of its own. -/
def isPart (k : NodeKind) : Bool :=
  k = branch || k = caseClause || k.isHandler

/-- Operations and jumps have nothing below them. -/
def isLeaf : NodeKind → Bool
  | varDecl | platformCall | genericCall | assignment | genericAssignment => true
  | k => k.isTerminal

end NodeKind

/-- The entries that may stand right below an entry, in their order. -/
structure Entry.Admits (e : Entry) (below : List Entry) : Prop where
  branch_isSome : e.branch.isSome ↔ e.kind = .branch
  branch_iff : ∀ c ∈ below, c.kind = .branch ↔ e.kind = .condition
  case_iff : ∀ c ∈ below, c.kind = .caseClause ↔ e.kind = .switch
  try_of_handler : ∀ c ∈ below, c.kind.isHandler → e.kind = .tryStmt
  arms : e.kind = .condition → (below.map (·.branch)).Sublist [some .onTrue, some .onFalse]
  handlers_last : e.kind = .tryStmt → ∃ body handlers, below = body ++ handlers ∧
    (∀ c ∈ body, c.kind.isHandler = false) ∧
    (handlers.map (·.kind)).Sublist [.catchClause, .finallyClause]
  leaf : e.kind.isLeaf → below = []

namespace FlowTree

mutual

/-- Every entry of a tree and what stands right below it satisfy `P`. -/
def Everywhere (P : Entry → List Entry → Prop) : FlowTree → Prop
  | node e cs => P e (cs.map entry) ∧ EverywhereAll P cs

def EverywhereAll (P : Entry → List Entry → Prop) : List FlowTree → Prop
  | [] => True
  | t :: ts => t.Everywhere P ∧ EverywhereAll P ts

end

theorem everywhereAll_iff {P : Entry → List Entry → Prop} {ts : List FlowTree} :
    EverywhereAll P ts ↔ ∀ t ∈ ts, t.Everywhere P := by
  induction ts with
  | nil => simp [EverywhereAll]
  | cons t ts ih => simp [EverywhereAll, ih]

/-- A well-shaped tree that may stand wherever a statement may. -/
def IsStatement (t : FlowTree) : Prop :=
  t.Everywhere Entry.Admits ∧ t.entry.kind.isPart = false

open FlowNode

/-- No node of a numbering below `parent` belongs to a node outside of it. -/
private theorem childrenOf_outside {nodes : List FlowNode} {first stop k : Nat}
    {parent : Option String} (hpl : ∀ n ∈ nodes, Placed first stop parent n)
    (hp : parent ≠ some (nodeId k)) (hk : k < first ∨ stop ≤ k) :
    childrenOf nodes (nodeId k) = [] := by
  rw [childrenOf_nodeId, List.filter_eq_nil_iff]
  intro n hn
  rw [decide_eq_true_iff]
  intro hpar
  obtain ⟨i, hi, hi', -, hpar' | ⟨j, hj, hji, hpar'⟩⟩ := hpl n hn
  · exact hp (hpar'.symm.trans hpar)
  · have := nodeId_inj.mp (Option.some.inj (hpar'.symm.trans hpar))
    omega

theorem childrenOf_append (l₁ l₂ : List FlowNode) (p : String) :
    childrenOf (l₁ ++ l₂) p = childrenOf l₁ p ++ childrenOf l₂ p :=
  List.filter_append ..

/-- The nodes right below the parent of a numbering are the roots of its trees. -/
private theorem entries_below (first q : Nat) (hq : q < first) (ts : List FlowTree) :
    (childrenOf (numberAll first (some (nodeId q)) ts) (nodeId q)).map (·.toEntry) =
      ts.map entry := by
  induction ts generalizing first with
  | nil => rfl
  | cons t ts ih =>
    cases t with
    | node e cs =>
      have hcs : childrenOf (numberAll (first + 1) (some (nodeId first)) cs) (nodeId q) = [] :=
        childrenOf_outside (placed_numberAll _ _ cs) (by simp; omega) (.inl (by omega))
      have hroot : childrenOf (number first (some (nodeId q)) (node e cs)) (nodeId q) =
          [{ e with id := nodeId first, parent := nodeId q }] := by
        rw [number, childrenOf_nodeId, List.filter_cons_of_pos (by simp), ← childrenOf_nodeId, hcs]
      rw [numberAll, childrenOf_append, hroot, List.map_append, ih _ (by omega)]
      rfl

mutual

private theorem below_number {P : Entry → List Entry → Prop} (first : Nat) (parent : Option String)
    (hp : ∀ q, parent = some (nodeId q) → q < first) :
    (t : FlowTree) → t.Everywhere P → ∀ n ∈ t.number first parent,
      P n.toEntry ((childrenOf (t.number first parent) n.id).map (·.toEntry))
  | node e cs => by
    intro ht n hn
    have hcs := placed_numberAll (first + 1) (some (nodeId first)) cs
    -- The root of a tree belongs to none of the nodes of the tree.
    have hroot : ∀ k, first ≤ k → childrenOf (number first parent (node e cs)) (nodeId k) =
        childrenOf (numberAll (first + 1) (some (nodeId first)) cs) (nodeId k) := by
      intro k hk
      rw [number, childrenOf_nodeId, List.filter_cons_of_neg, ← childrenOf_nodeId]
      rw [decide_eq_true_iff]
      intro he
      have := hp k he
      omega
    rw [number, List.mem_cons] at hn
    rcases hn with rfl | hn
    · rw [hroot first (Nat.le_refl _), entries_below _ _ (by omega)]
      exact ht.1
    · obtain ⟨k, hk, -, hid, -⟩ := hcs n hn
      rw [hid, hroot k (by omega), ← hid]
      refine below_numberAll _ _ ?_ cs ht.2 n hn
      intro q hq
      have := nodeId_inj.mp (Option.some.inj hq)
      omega

theorem below_numberAll {P : Entry → List Entry → Prop} (first : Nat)
    (parent : Option String) (hp : ∀ q, parent = some (nodeId q) → q < first) :
    (ts : List FlowTree) → EverywhereAll P ts → ∀ n ∈ numberAll first parent ts,
      P n.toEntry ((childrenOf (numberAll first parent ts) n.id).map (·.toEntry))
  | [] => by
    intro _ n hn
    cases hn
  | t :: ts => by
    intro hts n hn
    have hpt := placed_number first parent t
    have hpts := placed_numberAll (first + t.size) parent ts
    have houter : ∀ k, first ≤ k → parent ≠ some (nodeId k) := by
      intro k hk he
      have := hp k he
      omega
    rw [numberAll, List.mem_append] at hn
    rw [numberAll, childrenOf_append]
    rcases hn with hn | hn
    · obtain ⟨k, hk, hk', hid, -⟩ := hpt n hn
      rw [hid, childrenOf_outside hpts (houter k hk) (.inl hk'), List.append_nil, ← hid]
      exact below_number first parent hp t hts.1 n hn
    · obtain ⟨k, hk, -, hid, -⟩ := hpts n hn
      rw [hid, childrenOf_outside hpt (houter k (by omega)) (.inr hk), List.nil_append, ← hid]
      refine below_numberAll _ _ ?_ ts hts.2 n hn
      intro q hq
      have := hp q hq
      omega

end

private theorem roots_numberAll (first : Nat) (ts : List FlowTree) :
    ∀ n ∈ numberAll first none ts, n.parent = none → ∃ t ∈ ts, n.toEntry = t.entry := by
  induction ts generalizing first with
  | nil =>
    intro n hn
    cases hn
  | cons t ts ih =>
    intro n hn hp
    rw [numberAll, List.mem_append] at hn
    rcases hn with hn | hn
    · cases t with
      | node e cs =>
        rw [number, List.mem_cons] at hn
        rcases hn with rfl | hn
        · exact ⟨_, List.mem_cons_self .., rfl⟩
        · obtain ⟨k, -, -, -, hpar | ⟨j, -, -, hpar⟩⟩ := placed_numberAll _ _ cs n hn
          · simp [hpar] at hp
          · simp [hpar] at hp
    · obtain ⟨t', ht', he⟩ := ih _ n hn hp
      exact ⟨t', List.mem_cons_of_mem _ ht', he⟩

end FlowTree

namespace FlowNode

/-- The schema of a flow: which nodes belong to which, and in which order. -/
structure Schema (nodes : List FlowNode) : Prop where
  branch_isSome : ∀ n ∈ nodes, n.branch.isSome ↔ n.kind = .branch
  branch_parent : ∀ n ∈ nodes, n.kind = .branch →
    ∃ p ∈ nodes, n.parent = some p.id ∧ p.kind = .condition
  condition_children : ∀ p ∈ nodes, p.kind = .condition →
    ∀ c ∈ childrenOf nodes p.id, c.kind = .branch
  arms : ∀ p ∈ nodes, p.kind = .condition →
    ((childrenOf nodes p.id).map (·.branch)).Sublist [some .onTrue, some .onFalse]
  case_parent : ∀ n ∈ nodes, n.kind = .caseClause →
    ∃ p ∈ nodes, n.parent = some p.id ∧ p.kind = .switch
  switch_children : ∀ p ∈ nodes, p.kind = .switch →
    ∀ c ∈ childrenOf nodes p.id, c.kind = .caseClause
  handler_parent : ∀ n ∈ nodes, n.kind.isHandler →
    ∃ p ∈ nodes, n.parent = some p.id ∧ p.kind = .tryStmt
  handlers_last : ∀ p ∈ nodes, p.kind = .tryStmt →
    ∃ body handlers, childrenOf nodes p.id = body ++ handlers ∧
      (∀ c ∈ body, c.kind.isHandler = false) ∧
      (handlers.map (·.kind)).Sublist [.catchClause, .finallyClause]
  leaf : ∀ p ∈ nodes, p.kind.isLeaf → childrenOf nodes p.id = []

/-- What holds around each node of a forest makes up the schema of the whole. -/
theorem Schema.of_admits {nodes : List FlowNode} (hf : Forest nodes)
    (hroot : ∀ n ∈ nodes, n.parent = none → n.kind.isPart = false)
    (hbelow : ∀ n ∈ nodes, n.toEntry.Admits ((childrenOf nodes n.id).map (·.toEntry))) :
    Schema nodes := by
  have hpart : ∀ n ∈ nodes, n.kind.isPart → ∃ p ∈ nodes, n.parent = some p.id ∧
      n.toEntry ∈ (childrenOf nodes p.id).map (·.toEntry) := by
    intro n hn hk
    cases hp : n.parent with
    | none =>
      rw [hroot n hn hp] at hk
      cases hk
    | some p =>
      obtain ⟨m, hm, rfl, hc, -⟩ := hf.exists_parent hn hp
      exact ⟨m, hm, rfl, List.mem_map_of_mem hc⟩
  constructor
  · exact fun n hn => (hbelow n hn).branch_isSome
  · intro n hn hk
    obtain ⟨p, hp, hpar, hc⟩ := hpart n hn (by rw [hk]; rfl)
    exact ⟨p, hp, hpar, ((hbelow p hp).branch_iff _ hc).mp hk⟩
  · intro p hp hk c hc
    exact ((hbelow p hp).branch_iff _ (List.mem_map_of_mem hc)).mpr hk
  · intro p hp hk
    simpa only [List.map_map, Function.comp_def] using (hbelow p hp).arms hk
  · intro n hn hk
    obtain ⟨p, hp, hpar, hc⟩ := hpart n hn (by rw [hk]; rfl)
    exact ⟨p, hp, hpar, ((hbelow p hp).case_iff _ hc).mp hk⟩
  · intro p hp hk c hc
    exact ((hbelow p hp).case_iff _ (List.mem_map_of_mem hc)).mpr hk
  · intro n hn hk
    obtain ⟨p, hp, hpar, hc⟩ := hpart n hn (by rw [NodeKind.isPart, hk, Bool.or_true])
    exact ⟨p, hp, hpar, (hbelow p hp).try_of_handler _ hc hk⟩
  · intro p hp hk
    obtain ⟨body, handlers, he, hbody, hlast⟩ := (hbelow p hp).handlers_last hk
    obtain ⟨l₁, l₂, hl, rfl, rfl⟩ := List.map_eq_append_iff.mp he
    refine ⟨l₁, l₂, hl, fun c hc => hbody _ (List.mem_map_of_mem hc), ?_⟩
    simpa only [List.map_map, Function.comp_def] using hlast
  · intro p hp hk
    exact List.map_eq_nil_iff.mp ((hbelow p hp).leaf hk)

end FlowNode

/-- The numbering of well-shaped statements obeys the schema. -/
theorem FlowTree.schema_numberAll {first : Nat} {ts : List FlowTree}
    (h : ∀ t ∈ ts, t.IsStatement) : FlowNode.Schema (numberAll first none ts) := by
  refine .of_admits (forest_numberAll first ts) ?_ ?_
  · intro n hn hp
    obtain ⟨t, ht, he⟩ := roots_numberAll first ts n hn hp
    rw [he]
    exact (h t ht).2
  · exact below_numberAll first none (by simp) ts (everywhereAll_iff.mpr fun t ht => (h t ht).1)

end Flowchart
