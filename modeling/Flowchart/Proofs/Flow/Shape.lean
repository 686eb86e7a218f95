import Flowchart.Flow.Extract
import Flowchart.Proofs.Flow.Schema

/-! Whatever the tree of a script looks like, its outline is well shaped. -/
namespace Flowchart

namespace NodeKind

/-- Any statements may stand below nodes of these kinds. -/
def holdsStatements : NodeKind → Bool
  | function | branch | caseClause | loop | catchClause | finallyClause => true
  | _ => false

private theorem of_holdsStatements {k : NodeKind} (h : k.holdsStatements) :
    k ≠ .condition ∧ k ≠ .switch ∧ k ≠ .tryStmt ∧ k.isLeaf = false := by
  cases k <;> simp [holdsStatements, isLeaf, isTerminal] at h ⊢

theorem isPart_eq_false_iff {k : NodeKind} :
    k.isPart = false ↔ k ≠ .branch ∧ k ≠ .caseClause ∧ k.isHandler = false := by
  simp [isPart, and_assoc]

end NodeKind

namespace FlowTree

/-- Nothing at all may stand below an entry of any kind. -/
theorem everywhere_leaf {e : Entry} (hb : e.branch.isSome ↔ e.kind = .branch) :
    (node e []).Everywhere Entry.Admits := by
  refine ⟨?_, trivial⟩
  rw [List.map_nil]
  constructor
  · exact hb
  · exact fun _ hc => absurd hc List.not_mem_nil
  · exact fun _ hc => absurd hc List.not_mem_nil
  · exact fun _ hc => absurd hc List.not_mem_nil
  · exact fun _ => List.nil_sublist _
  · exact fun _ => ⟨[], [], rfl, fun _ hc => absurd hc List.not_mem_nil, List.nil_sublist _⟩
  · exact fun _ => rfl

/-- A body of statements below an entry that holds them. -/
theorem everywhere_body {e : Entry} {cs : List FlowTree} (hb : e.branch.isSome ↔ e.kind = .branch)
    (hk : e.kind.holdsStatements) (hcs : ∀ c ∈ cs, c.IsStatement) :
    (node e cs).Everywhere Entry.Admits := by
  obtain ⟨hcond, hswitch, htry, hleaf⟩ := NodeKind.of_holdsStatements hk
  have hpart : ∀ c ∈ cs.map entry, c.kind ≠ .branch ∧ c.kind ≠ .caseClause ∧
      c.kind.isHandler = false := by
    intro c hc
    obtain ⟨f, hf, rfl⟩ := List.mem_map.mp hc
    exact NodeKind.isPart_eq_false_iff.mp (hcs f hf).2
  refine ⟨?_, everywhereAll_iff.mpr fun c hc => (hcs c hc).1⟩
  constructor
  · exact hb
  · exact fun c hc => iff_of_false (hpart c hc).1 hcond
  · exact fun c hc => iff_of_false (hpart c hc).2.1 hswitch
  · intro c hc h
    rw [(hpart c hc).2.2] at h
    cases h
  · exact fun h => absurd h hcond
  · exact fun h => absurd h htry
  · intro h
    rw [hleaf] at h
    cases h

/-- One arm of a condition. -/
def IsArm (b : Branch) (t : FlowTree) : Prop :=
  t.Everywhere Entry.Admits ∧ t.entry.kind = .branch ∧ t.entry.branch = some b

/-- A condition with its true arm before its false arm, each of which may be missing. -/
theorem everywhere_condition {e : Entry} (yes no : Option FlowTree) (hk : e.kind = .condition)
    (hb : e.branch = none) (hyes : ∀ t ∈ yes, t.IsArm .onTrue) (hno : ∀ t ∈ no, t.IsArm .onFalse) :
    (node e (yes.toList ++ no.toList)).Everywhere Entry.Admits := by
  have harm : ∀ t ∈ yes.toList ++ no.toList,
      t.Everywhere Entry.Admits ∧ t.entry.kind = .branch := by
    intro t ht
    rw [List.mem_append, Option.mem_toList, Option.mem_toList] at ht
    rcases ht with ht | ht
    · exact ⟨(hyes t ht).1, (hyes t ht).2.1⟩
    · exact ⟨(hno t ht).1, (hno t ht).2.1⟩
  have hkind : ∀ c ∈ (yes.toList ++ no.toList).map entry, c.kind = .branch := by
    intro c hc
    obtain ⟨t, ht, rfl⟩ := List.mem_map.mp hc
    exact (harm t ht).2
  refine ⟨?_, everywhereAll_iff.mpr fun t ht => (harm t ht).1⟩
  constructor
  · rw [hb, hk]
    exact iff_of_false nofun nofun
  · exact fun c hc => iff_of_true (hkind c hc) hk
  · intro c hc
    rw [hkind c hc, hk]
    exact iff_of_false nofun nofun
  · intro c hc h
    rw [hkind c hc] at h
    cases h
  · intro _
    rw [List.map_append, List.map_append]
    have hl : ((yes.toList.map entry).map (·.branch)).Sublist [some .onTrue] := by
      cases yes with
      | none => exact List.nil_sublist _
      | some t => simp [(hyes t rfl).2.2]
    have hr : ((no.toList.map entry).map (·.branch)).Sublist [some .onFalse] := by
      cases no with
      | none => exact List.nil_sublist _
      | some t => simp [(hno t rfl).2.2]
    exact hl.append hr
  · intro h
    rw [hk] at h
    cases h
  · intro h
    rw [hk] at h
    cases h

/-- A switch with nothing but cases below it. -/
theorem everywhere_switch {e : Entry} {cs : List FlowTree} (hk : e.kind = .switch)
    (hb : e.branch = none)
    (hcs : ∀ t ∈ cs, t.Everywhere Entry.Admits ∧ t.entry.kind = .caseClause) :
    (node e cs).Everywhere Entry.Admits := by
  have hkind : ∀ c ∈ cs.map entry, c.kind = .caseClause := by
    intro c hc
    obtain ⟨t, ht, rfl⟩ := List.mem_map.mp hc
    exact (hcs t ht).2
  refine ⟨?_, everywhereAll_iff.mpr fun t ht => (hcs t ht).1⟩
  constructor
  · rw [hb, hk]
    exact iff_of_false nofun nofun
  · intro c hc
    rw [hkind c hc, hk]
    exact iff_of_false nofun nofun
  · exact fun c hc => iff_of_true (hkind c hc) hk
  · intro c hc h
    rw [hkind c hc] at h
    cases h
  · intro h
    rw [hk] at h
    cases h
  · intro h
    rw [hk] at h
    cases h
  · intro h
    rw [hk] at h
    cases h

/-- A try statement with its body before its handler and its finalizer, which may be missing. -/
theorem everywhere_try {e : Entry} {body : List FlowTree} {handler finalizer : Option FlowTree}
    (hk : e.kind = .tryStmt) (hb : e.branch = none) (hbody : ∀ t ∈ body, t.IsStatement)
    (hh : ∀ t ∈ handler, t.Everywhere Entry.Admits ∧ t.entry.kind = .catchClause)
    (hf : ∀ t ∈ finalizer, t.Everywhere Entry.Admits ∧ t.entry.kind = .finallyClause) :
    (node e (body ++ handler.toList ++ finalizer.toList)).Everywhere Entry.Admits := by
  have hall : ∀ t ∈ body ++ handler.toList ++ finalizer.toList,
      t.Everywhere Entry.Admits ∧ t.entry.kind ≠ .branch ∧ t.entry.kind ≠ .caseClause := by
    intro t ht
    rw [List.mem_append, List.mem_append, Option.mem_toList, Option.mem_toList] at ht
    rcases ht with (ht | ht) | ht
    · obtain ⟨hbranch, hcase, -⟩ := NodeKind.isPart_eq_false_iff.mp (hbody t ht).2
      exact ⟨(hbody t ht).1, hbranch, hcase⟩
    · rw [(hh t ht).2]
      exact ⟨(hh t ht).1, nofun, nofun⟩
    · rw [(hf t ht).2]
      exact ⟨(hf t ht).1, nofun, nofun⟩
  have hkind : ∀ c ∈ (body ++ handler.toList ++ finalizer.toList).map entry,
      c.kind ≠ .branch ∧ c.kind ≠ .caseClause := by
    intro c hc
    obtain ⟨t, ht, rfl⟩ := List.mem_map.mp hc
    exact (hall t ht).2
  refine ⟨?_, everywhereAll_iff.mpr fun t ht => (hall t ht).1⟩
  constructor
  · rw [hb, hk]
    exact iff_of_false nofun nofun
  · intro c hc
    rw [hk]
    exact iff_of_false (hkind c hc).1 nofun
  · intro c hc
    rw [hk]
    exact iff_of_false (hkind c hc).2 nofun
  · exact fun _ _ _ => hk
  · intro h
    rw [hk] at h
    cases h
  · intro _
    refine ⟨body.map entry, (handler.toList ++ finalizer.toList).map entry, ?_, ?_, ?_⟩
    · rw [← List.map_append, List.append_assoc]
    · intro c hc
      obtain ⟨t, ht, rfl⟩ := List.mem_map.mp hc
      exact (NodeKind.isPart_eq_false_iff.mp (hbody t ht).2).2.2
    · have hl : ((handler.toList.map entry).map (·.kind)).Sublist [.catchClause] := by
        cases handler with
        | none => exact List.nil_sublist _
        | some t => simp [(hh t rfl).2]
      have hr : ((finalizer.toList.map entry).map (·.kind)).Sublist [.finallyClause] := by
        cases finalizer with
        | none => exact List.nil_sublist _
        | some t => simp [(hf t rfl).2]
      rw [List.map_append, List.map_append]
      exact hl.append hr
  · intro h
    rw [hk] at h
    cases h

end FlowTree
end Flowchart
