import Flowchart.Proofs.Flow.StatementMade
import Flowchart.Proofs.Script.Spans

/-! The trees that the nodes of a statement are made for. -/
namespace Flowchart.Tree

/-- A statement `t` makes a node of kind `k` for the tree `u`, which is itself or a part of it. -/
inductive MakesFor (t : Tree) : NodeKind → Tree → Prop
  | whole {k : NodeKind} : k.isPart = false → MakesFor t k t
  | arm {u : Tree} : t.type = "if_statement" →
    u ∈ (t.field? "consequence").toList ++ (Plan.alternative? t).toList → MakesFor t .branch u
  | clause {u : Tree} : t.type = "switch_statement" → u ∈ Plan.clauses t →
    MakesFor t .caseClause u
  | handler {u : Tree} : t.type = "try_statement" → t.field? "handler" = some u →
    MakesFor t .catchClause u
  | finalizer {f : Tree} : t.type = "try_statement" → t.field? "finalizer" = some f →
    MakesFor t .finallyClause ((f.field? "body").getD f)

variable {src : Source} {root t u : Tree} {k : NodeKind}

theorem isPart_of_operationKind? (h : t.operationKind? src = some k) : k.isPart = false := by
  unfold operationKind? at h
  obtain ⟨x, -, hx⟩ := Option.bind_eq_some_iff.mp h
  split_ifs at hx
  all_goals
    obtain rfl := Option.some.inj hx
    rfl

/-- The nodes that a statement makes have the ranges of the trees that they are made for. -/
theorem exists_makesFor {x : NodeKind × CharRange} (h : x ∈ t.made src) :
    ∃ k u, t.MakesFor k u ∧ x = u.asNode src k := by
  rw [made] at h
  split_ifs at h
  · exact ⟨_, t, .whole rfl, List.mem_singleton.mp h⟩
  split at h
  case h_3 | h_4 =>
    obtain ⟨d, -, rfl⟩ := List.mem_map.mp h
    exact ⟨_, t, .whole rfl, rfl⟩
  case h_5 hty =>
    rcases List.mem_cons.mp h with rfl | h
    · exact ⟨_, t, .whole rfl, rfl⟩
    · obtain ⟨u, hu, rfl⟩ := List.mem_map.mp h
      exact ⟨_, u, .arm hty hu, rfl⟩
  case h_6 hty =>
    rcases List.mem_cons.mp h with rfl | h
    · exact ⟨_, t, .whole rfl, rfl⟩
    · obtain ⟨u, hu, rfl⟩ := List.mem_map.mp h
      exact ⟨_, u, .clause hty hu, rfl⟩
  case h_11 hty =>
    rcases List.mem_append.mp h with h | h
    · rcases List.mem_cons.mp h with rfl | h
      · exact ⟨_, t, .whole rfl, rfl⟩
      · obtain ⟨u, hu, rfl⟩ := List.mem_map.mp h
        exact ⟨_, u, .handler hty (Option.mem_toList.mp hu), rfl⟩
    · obtain ⟨b, hb, rfl⟩ := List.mem_map.mp h
      obtain ⟨f, hf, rfl⟩ := List.mem_map.mp hb
      exact ⟨_, _, .finalizer hty (Option.mem_toList.mp hf), rfl⟩
  case h_16 =>
    obtain ⟨k, hk, rfl⟩ := List.mem_map.mp h
    exact ⟨k, t, .whole (isPart_of_operationKind? (Option.mem_toList.mp hk)), rfl⟩
  case h_17 => cases h
  all_goals exact ⟨_, t, .whole rfl, List.mem_singleton.mp h⟩

theorem field?_mem_preorder {name : String} (ht : t ∈ root.preorder) (hu : t.field? name = some u) :
    u ∈ root.preorder :=
  child_mem_preorder (List.mem_of_find?_eq_some hu) root ht

theorem MakesFor.mem_preorder (h : t.MakesFor k u) (ht : t ∈ root.preorder) :
    u ∈ root.preorder := by
  cases h with
  | whole => exact ht
  | arm _ hu =>
    rcases List.mem_append.mp hu with hu | hu
    · exact field?_mem_preorder ht (Option.mem_toList.mp hu)
    · obtain ⟨a, ha, hu⟩ := Option.bind_eq_some_iff.mp (Option.mem_toList.mp hu)
      have ha := field?_mem_preorder ht ha
      split_ifs at hu
      · exact child_mem_preorder (List.mem_of_find?_eq_some hu) root ha
      · exact Option.some.inj hu ▸ ha
  | clause _ hu =>
    unfold Plan.clauses at hu
    cases hb : t.field? "body" with
    | none =>
      rw [hb] at hu
      cases hu
    | some b =>
      rw [hb] at hu
      have hu := (List.mem_filter.mp (List.mem_filter.mp hu).1).1
      exact child_mem_preorder hu root (field?_mem_preorder ht hb)
  | handler _ hu => exact field?_mem_preorder ht hu
  | @finalizer f _ hf =>
    have hf := field?_mem_preorder ht hf
    cases hb : f.field? "body" with
    | none => exact hf
    | some b => exact field?_mem_preorder hf hb

end Flowchart.Tree
