import Flowchart.Flow.Extract
import Flowchart.Proofs.Flow.Construct
import Flowchart.Proofs.Flow.Shape

/-! Every construct contributes well-shaped statements to the outline, however its tree is damaged,
and so the flow nodes of every script obey the schema. -/
namespace Flowchart

namespace Plan
open FlowTree
variable {src : Source} {visited : Option String → Tree → List FlowTree}

theorem resolveAll_append (ps qs : List Plan) :
    resolveAll visited (ps ++ qs) = resolveAll visited ps ++ resolveAll visited qs := by
  induction ps with
  | nil => rfl
  | cons p ps ih => rw [List.cons_append, resolveAll, resolveAll, ih, List.append_assoc]

theorem mem_resolveAll {ps : List Plan} {f : FlowTree} :
    f ∈ resolveAll visited ps ↔ ∃ p ∈ ps, f ∈ p.resolve visited := by
  induction ps with
  | nil => simp [resolveAll]
  | cons p ps ih => simp [resolveAll, ih]

/-- A plan for an optional tree gives an optional tree of the outline. -/
theorem resolveAll_option {plan : Tree → Plan} {part : Tree → FlowTree}
    (h : ∀ t, (plan t).resolve visited = [part t]) (t : Option Tree) :
    resolveAll visited (t.toList.map plan) = (t.map part).toList := by
  cases t with
  | none => rfl
  | some t => simp [resolveAll, h]

/-- All parts of the outline that some plans give are statements. -/
def YieldStatements (visited : Option String → Tree → List FlowTree) (ps : List Plan) : Prop :=
  ∀ f ∈ resolveAll visited ps, f.IsStatement

theorem yieldStatements_nil : YieldStatements visited [] := by
  intro f hf
  rw [mem_resolveAll] at hf
  simp at hf

theorem yieldStatements_iff {ps : List Plan} :
    YieldStatements visited ps ↔ ∀ p ∈ ps, YieldStatements visited [p] := by
  constructor
  · intro h p hp f hf
    rw [mem_resolveAll] at hf
    obtain ⟨q, hq, hf⟩ := hf
    rw [List.mem_singleton] at hq
    exact h f (mem_resolveAll.mpr ⟨p, hp, hq ▸ hf⟩)
  · intro h f hf
    obtain ⟨p, hp, hf⟩ := mem_resolveAll.mp hf
    exact h p hp f (mem_resolveAll.mpr ⟨p, List.mem_singleton_self p, hf⟩)

/-- A node of the outline is a statement when what the plan of its parts gives fits below it. -/
theorem yieldStatements_node {e : Entry} {parts : List Plan} (hk : e.kind.isPart = false)
    (h : (FlowTree.node e (resolveAll visited parts)).Everywhere Entry.Admits) :
    YieldStatements visited [node e parts] := by
  intro f hf
  rw [resolveAll, resolve, resolveAll, List.append_nil, List.mem_singleton] at hf
  subst hf
  exact ⟨h, hk⟩

theorem yieldStatements_leaf {e : Entry} (hb : e.branch = none) (hk : e.kind.isPart = false) :
    YieldStatements visited [node e []] := by
  apply yieldStatements_node hk
  apply everywhere_leaf
  rw [hb]
  exact iff_of_false nofun (NodeKind.isPart_eq_false_iff.mp hk).1

section
variable (hv : ∀ name t, ∀ f ∈ visited name t, f.IsStatement)
include hv

theorem yieldStatements_visit (name : Option String) (ts : List Tree) :
    YieldStatements visited (ts.map (visit name)) := by
  intro f hf
  obtain ⟨p, hp, hf⟩ := mem_resolveAll.mp hf
  obtain ⟨t, -, rfl⟩ := List.mem_map.mp hp
  exact hv name t f hf

theorem yieldStatements_visits (t : Option Tree) : YieldStatements visited (visits t) :=
  yieldStatements_visit hv none t.toList

theorem function_yields (name : Option String) (fn : Tree) :
    YieldStatements visited [function src name fn] :=
  yieldStatements_node rfl
    (everywhere_body (iff_of_false nofun nofun) rfl (yieldStatements_visits hv _))

theorem immediate_yields (stmt fn : Tree) : YieldStatements visited [immediate src stmt fn] :=
  yieldStatements_node rfl
    (everywhere_body (iff_of_false nofun nofun) rfl (yieldStatements_visits hv _))

theorem declared_yields (stmt declarator value : Tree) :
    YieldStatements visited [declared src stmt declarator value] := by
  unfold declared
  split
  · exact yieldStatements_leaf rfl rfl
  · split
    · exact function_yields hv _ _
    · exact yieldStatements_leaf rfl rfl

theorem declaration_yields (stmt : Tree) : YieldStatements visited (declaration src stmt) := by
  rw [yieldStatements_iff]
  intro p hp
  obtain ⟨declarator, -, hp⟩ := List.mem_filterMap.mp hp
  obtain ⟨value, -, rfl⟩ := Option.map_eq_some_iff.mp hp
  exact declared_yields hv stmt declarator value

theorem isArm_arm (b : Branch) (t : Tree) :
    (FlowTree.node (branchEntry src b t) (resolveAll visited [visit none t])).IsArm b :=
  ⟨everywhere_body (iff_of_true rfl rfl) rfl (yieldStatements_visit hv none [t]), rfl, rfl⟩

/-- Every rung is a condition; the rungs that follow it are inside its false arm. -/
theorem ladder_yields (rungs : Nat) (t : Tree) : YieldStatements visited [ladder src rungs t] := by
  let armOf (b : Branch) (a : Tree) : FlowTree :=
    .node (branchEntry src b a) (resolveAll visited [visit none a])
  have htrue (t : Tree) : resolveAll visited (trueArm src t) =
      ((t.field? "consequence").map (armOf .onTrue)).toList :=
    resolveAll_option (fun _ => rfl) _
  have hyes (t : Tree) : ∀ f ∈ (t.field? "consequence").map (armOf .onTrue), f.IsArm .onTrue := by
    intro f hf
    obtain ⟨a, -, rfl⟩ := Option.map_eq_some_iff.mp hf
    exact isArm_arm hv .onTrue a
  induction rungs generalizing t with
  | zero =>
    apply yieldStatements_node rfl
    rw [htrue, ← List.append_nil (Option.toList _)]
    exact everywhere_condition _ none rfl rfl (hyes t) nofun
  | succ rungs ih =>
    apply yieldStatements_node rfl
    rw [resolveAll_append, htrue]
    cases alternative? t with
    | none => exact everywhere_condition _ none rfl rfl (hyes t) nofun
    | some a =>
      by_cases ha : a.type = "if_statement"
      · simp only [if_pos ha]
        refine everywhere_condition _ (some (.node (branchEntry src .onFalse a)
          (resolveAll visited [ladder src rungs a]))) rfl rfl (hyes t) ?_
        rintro f ⟨⟩
        exact ⟨everywhere_body (iff_of_true rfl rfl) rfl (ih a), rfl, rfl⟩
      · simp only [if_neg ha]
        refine everywhere_condition _ (some (armOf .onFalse a)) rfl rfl (hyes t) ?_
        rintro f ⟨⟩
        exact isArm_arm hv .onFalse a

theorem switch_yields (t : Tree) : YieldStatements visited [switch src t] := by
  apply yieldStatements_node rfl
  apply everywhere_switch rfl rfl
  intro f hf
  obtain ⟨p, hp, hf⟩ := mem_resolveAll.mp hf
  obtain ⟨c, -, rfl⟩ := List.mem_map.mp hp
  rw [clause, resolve, List.mem_singleton] at hf
  subst hf
  exact ⟨everywhere_body (iff_of_false nofun nofun) rfl (yieldStatements_visit hv none _), rfl⟩

theorem loop_yields (word label : String) (t : Tree) :
    YieldStatements visited [loop src word label t] :=
  yieldStatements_node rfl
    (everywhere_body (iff_of_false nofun nofun) rfl (yieldStatements_visits hv _))

theorem tryBlock_yields (t : Tree) : YieldStatements visited [tryBlock src t] := by
  apply yieldStatements_node rfl
  rw [resolveAll_append, resolveAll_append, resolveAll_option fun _ => rfl,
    resolveAll_option fun _ => rfl]
  refine everywhere_try rfl rfl (yieldStatements_visits hv _) ?_ ?_
  · intro f hf
    obtain ⟨h, -, rfl⟩ := Option.map_eq_some_iff.mp hf
    exact ⟨everywhere_body (iff_of_false nofun nofun) rfl (yieldStatements_visits hv _), rfl⟩
  · intro f hf
    obtain ⟨h, -, rfl⟩ := Option.map_eq_some_iff.mp hf
    exact ⟨everywhere_body (iff_of_false nofun nofun) rfl (yieldStatements_visit hv none [_]), rfl⟩

theorem callPlan_yields (stmt call : Tree) : YieldStatements visited [callPlan src stmt call] := by
  unfold callPlan
  split
  · exact immediate_yields hv _ _
  · split
    · exact yieldStatements_leaf rfl rfl
    · exact yieldStatements_leaf rfl rfl

omit hv in
theorem assignment_yields (stmt expr : Tree) :
    YieldStatements visited [assignment src stmt expr] := by
  unfold assignment
  split
  · exact yieldStatements_leaf rfl rfl
  · exact yieldStatements_leaf rfl rfl

theorem expression_yields (stmt : Tree) : YieldStatements visited (expression src stmt) := by
  unfold expression
  split
  · exact yieldStatements_nil
  · split_ifs
    · exact callPlan_yields hv _ _
    · exact assignment_yields _ _
    · exact yieldStatements_leaf rfl rfl
    · exact yieldStatements_nil

end

theorem isPart_of_isTerminal {k : NodeKind} (h : k.isTerminal) : k.isPart = false := by
  cases k <;> simp [NodeKind.isTerminal, NodeKind.isPart, NodeKind.isHandler] at h ⊢

/-- The exits and the jumps end the execution of what they stand in. -/
theorem isTerminal_of_construct {t : Tree} {k : NodeKind}
    (h : t.construct = .exit k ∨ t.construct = .jump k) : k.isTerminal := by
  rcases h with h | h
  · have hmem := (Tree.construct_eq_iff (by simp) (by simp)).mp h
    simp [constructs] at hmem
    rcases hmem with ⟨-, rfl⟩ | ⟨-, rfl⟩ <;> rfl
  · have hmem := (Tree.construct_eq_iff (by simp) (by simp)).mp h
    simp [constructs] at hmem
    rcases hmem with ⟨-, rfl⟩ | ⟨-, rfl⟩ <;> rfl

theorem ofTree_yields (hv : ∀ name t, ∀ f ∈ visited name t, f.IsStatement) (name : Option String)
    (t : Tree) : YieldStatements visited (ofTree src name t) := by
  unfold ofTree
  split
  · exact yieldStatements_visit hv none _
  · exact function_yields hv name t
  · exact declaration_yields hv t
  · exact ladder_yields hv t.size t
  · exact switch_yields hv t
  · exact loop_yields hv _ _ t
  · exact loop_yields hv _ _ t
  · exact loop_yields hv _ _ t
  · exact loop_yields hv _ _ t
  · exact tryBlock_yields hv t
  · rename_i k hc
    exact yieldStatements_leaf rfl (isPart_of_isTerminal (isTerminal_of_construct (.inl hc)))
  · rename_i k hc
    exact yieldStatements_leaf rfl (isPart_of_isTerminal (isTerminal_of_construct (.inr hc)))
  · exact yieldStatements_visits hv _
  · exact expression_yields hv t
  · exact yieldStatements_nil

end Plan

namespace Tree

theorem outlineWithin_isStatement (src : Source) (depth : Nat) (name : Option String) (t : Tree) :
    ∀ f ∈ outlineWithin src depth name t, f.IsStatement := by
  induction depth generalizing name t with
  | zero => exact fun _ hf => absurd hf List.not_mem_nil
  | succ depth ih => exact Plan.ofTree_yields ih name t

end Tree

/-- The flow nodes of every script obey the schema, however its tree is damaged. -/
theorem extract_schema (src : Source) (t : Tree) : FlowNode.Schema (extract src t) :=
  FlowTree.schema_numberAll (t.outlineWithin_isStatement src t.size none)

end Flowchart
