import Flowchart.Proofs.Flow.OutlineShape

/-! The outline of a tree by plain recursion. Every visit goes to a smaller tree, so that the bound
on the depth cuts nothing off, and an else-if chain is a recursion through the alternatives. -/
namespace Flowchart

namespace Tree

theorem size_le_sizeAll {c : Tree} {cs : List Tree} (h : c ∈ cs) : c.size ≤ sizeAll cs := by
  induction h with
  | head => exact Nat.le_add_right ..
  | tail d _ ih => exact Nat.le_trans ih (Nat.le_add_left ..)

theorem size_lt_of_mem {t c : Tree} (h : c ∈ t.children) : c.size < t.size := by
  cases t with
  | node m cs =>
    have hle : c.size ≤ sizeAll cs := size_le_sizeAll h
    rw [size]
    omega

theorem size_lt_of_field? {t c : Tree} {name : String} (h : t.field? name = some c) :
    c.size < t.size :=
  size_lt_of_mem (List.mem_of_find?_eq_some h)

theorem size_lt_of_firstStatement? {t c : Tree} (h : t.firstStatement? = some c) :
    c.size < t.size :=
  size_lt_of_mem (List.mem_of_find?_eq_some h)

theorem size_lt_of_statements {t c : Tree} (h : c ∈ t.statements) : c.size < t.size :=
  size_lt_of_mem (List.mem_filter.mp h).1

mutual

theorem size_le_of_unwrap : (t : Tree) → ∀ u, t.unwrap = some u → u.size ≤ t.size
  | node m cs => by
    intro u hu
    rw [unwrap] at hu
    split_ifs at hu
    · exact Nat.le_trans (size_le_of_unwrapFirst cs u hu) (Nat.le_add_left ..)
    · obtain rfl := Option.some.inj hu
      exact Nat.le_refl _

theorem size_le_of_unwrapFirst : (cs : List Tree) → ∀ u, unwrapFirst cs = some u →
    u.size ≤ sizeAll cs
  | [] => nofun
  | c :: cs => by
    intro u hu
    rw [unwrapFirst] at hu
    split_ifs at hu
    · exact Nat.le_trans (size_le_of_unwrap c u hu) (Nat.le_add_right ..)
    · exact Nat.le_trans (size_le_of_unwrapFirst cs u hu) (Nat.le_add_left ..)

end

end Tree

namespace Plan
open Flowchart.Tree

mutual

/-- The visits of a part, in their order. -/
def targets : Plan → List (Option String × Tree)
  | visit name t => [(name, t)]
  | node _ parts => targetsAll parts

def targetsAll : List Plan → List (Option String × Tree)
  | [] => []
  | p :: ps => p.targets ++ targetsAll ps

end

mutual

/-- A part depends on the outlines of the trees that it visits only. -/
theorem resolve_congr {f g : Option String → Tree → List FlowTree} :
    (p : Plan) → (∀ v ∈ p.targets, f v.1 v.2 = g v.1 v.2) → p.resolve f = p.resolve g
  | visit name t => fun h => h (name, t) (List.mem_singleton_self _)
  | node e parts => fun h => by rw [resolve, resolve, resolveAll_congr parts h]

theorem resolveAll_congr {f g : Option String → Tree → List FlowTree} :
    (ps : List Plan) → (∀ v ∈ targetsAll ps, f v.1 v.2 = g v.1 v.2) →
      resolveAll f ps = resolveAll g ps
  | [] => fun _ => rfl
  | p :: ps => fun h => by
    rw [targetsAll] at h
    rw [resolveAll, resolveAll, resolve_congr p fun v hv => h v (List.mem_append_left _ hv),
      resolveAll_congr ps fun v hv => h v (List.mem_append_right _ hv)]

end

theorem targetsAll_append (ps qs : List Plan) :
    targetsAll (ps ++ qs) = targetsAll ps ++ targetsAll qs := by
  induction ps with
  | nil => rfl
  | cons p ps ih => rw [List.cons_append, targetsAll, targetsAll, ih, List.append_assoc]

theorem targetsAll_map {α : Type} (plan : α → Plan) (xs : List α) :
    targetsAll (xs.map plan) = xs.flatMap fun x => (plan x).targets := by
  induction xs with
  | nil => rfl
  | cons x xs ih => rw [List.map_cons, targetsAll, ih, List.flatMap_cons]

theorem targetsAll_visit (name : Option String) (ts : List Tree) :
    targetsAll (ts.map (visit name)) = ts.map (name, ·) := by
  rw [targetsAll_map, List.map_eq_flatMap]
  rfl

theorem targets_node (e : Entry) (parts : List Plan) :
    targetsAll [node e parts] = targetsAll parts :=
  List.append_nil _

/-- All visits of some parts go to trees smaller than `n`. -/
def Shrinks (n : Nat) (ps : List Plan) : Prop :=
  ∀ v ∈ targetsAll ps, v.2.size < n

section
variable {src : Source} {n m : Nat}

theorem shrinks_iff {ps : List Plan} : Shrinks n ps ↔ ∀ p ∈ ps, Shrinks n [p] := by
  have hone (p : Plan) : targetsAll [p] = p.targets := List.append_nil _
  have hall := targetsAll_map id ps
  rw [List.map_id] at hall
  simp only [Shrinks, hall, hone, List.mem_flatMap, id]
  constructor
  · exact fun h p hp v hv => h v ⟨p, hp, hv⟩
  · rintro h v ⟨p, hp, hv⟩
    exact h p hp v hv

theorem shrinks_append {ps qs : List Plan} :
    Shrinks n (ps ++ qs) ↔ Shrinks n ps ∧ Shrinks n qs := by
  rw [Shrinks, targetsAll_append, List.forall_mem_append]
  rfl

theorem Shrinks.mono {ps : List Plan} (h : Shrinks m ps) (hm : m ≤ n) : Shrinks n ps :=
  fun v hv => Nat.lt_of_lt_of_le (h v hv) hm

theorem shrinks_node {e : Entry} {ps : List Plan} : Shrinks n [node e ps] ↔ Shrinks n ps := by
  rw [Shrinks, targets_node]
  rfl

theorem shrinks_leaf (e : Entry) : Shrinks n [node e []] :=
  nofun

theorem shrinks_visit {name : Option String} {ts : List Tree} :
    Shrinks n (ts.map (visit name)) ↔ ∀ t ∈ ts, t.size < n := by
  simp [Shrinks, targetsAll_visit]

theorem shrinks_visit_one {name : Option String} {t : Tree} :
    Shrinks n [visit name t] ↔ t.size < n := by
  simp [Shrinks, targetsAll, targets]

theorem shrinks_visits {t : Option Tree} : Shrinks n (visits t) ↔ ∀ u ∈ t, u.size < n := by
  rw [visits, shrinks_visit]
  simp

theorem body_shrinks (t : Tree) : Shrinks t.size (visits (t.field? "body")) :=
  shrinks_visits.mpr fun _ hu => size_lt_of_field? hu

theorem function_shrinks (name : Option String) (fn : Tree) :
    Shrinks fn.size [function src name fn] :=
  shrinks_node.mpr (body_shrinks fn)

theorem immediate_shrinks (stmt fn : Tree) : Shrinks fn.size [immediate src stmt fn] := by
  refine shrinks_node.mpr (shrinks_visits.mpr fun u hu => ?_)
  exact size_lt_of_field? (Option.filter_eq_some_iff.mp hu).1

theorem declared_shrinks (stmt declarator value : Tree) :
    Shrinks value.size [declared src stmt declarator value] := by
  unfold declared
  split
  · exact shrinks_leaf _
  · split
    · exact function_shrinks _ value
    · exact shrinks_leaf _

/-- What stands in a field of a child, without its parentheses, is smaller than the tree. -/
theorem size_lt_of_unwrap {t u : Tree} {name : String}
    (h : (t.field? name).bind Tree.unwrap = some u) : u.size < t.size := by
  obtain ⟨f, hf, hu⟩ := Option.bind_eq_some_iff.mp h
  exact Nat.lt_of_le_of_lt (size_le_of_unwrap f u hu) (size_lt_of_field? hf)

theorem declaration_shrinks (stmt : Tree) : Shrinks stmt.size (declaration src stmt) := by
  rw [shrinks_iff]
  intro p hp
  obtain ⟨d, hd, hp⟩ := List.mem_filterMap.mp hp
  obtain ⟨value, hv, rfl⟩ := Option.map_eq_some_iff.mp hp
  have hdt : d.size < stmt.size :=
    size_lt_of_mem (List.mem_filter.mp (List.mem_filter.mp hd).1).1
  exact (declared_shrinks stmt d value).mono
    (Nat.le_of_lt (Nat.lt_trans (size_lt_of_unwrap hv) hdt))

theorem size_lt_of_alternative? {t a : Tree} (h : alternative? t = some a) : a.size < t.size := by
  obtain ⟨f, hf, ha⟩ := Option.bind_eq_some_iff.mp h
  have hft := size_lt_of_field? hf
  split_ifs at ha
  · exact Nat.lt_trans (size_lt_of_firstStatement? ha) hft
  · obtain rfl := Option.some.inj ha
    exact hft

theorem ladder_shrinks (rungs : Nat) (t : Tree) : Shrinks t.size [ladder src rungs t] := by
  have hyes (t : Tree) : Shrinks t.size (trueArm src t) := by
    rw [shrinks_iff]
    intro p hp
    obtain ⟨c, hc, rfl⟩ := List.mem_map.mp hp
    have hlt := size_lt_of_field? (Option.mem_toList.mp hc)
    exact shrinks_node.mpr (shrinks_visit_one.mpr hlt)
  induction rungs generalizing t with
  | zero => exact shrinks_node.mpr (hyes t)
  | succ rungs ih =>
    refine shrinks_node.mpr (shrinks_append.mpr ⟨hyes t, ?_⟩)
    cases ha : alternative? t with
    | none => exact nofun
    | some a =>
      have hlt := size_lt_of_alternative? ha
      by_cases hif : a.type = "if_statement"
      · simp only [if_pos hif]
        exact shrinks_node.mpr ((ih a).mono (Nat.le_of_lt hlt))
      · simp only [if_neg hif]
        exact shrinks_node.mpr (shrinks_visit_one.mpr hlt)

theorem clauseStatements_sublist (c : Tree) : (clauseStatements c).Sublist c.children := by
  unfold clauseStatements
  split
  · exact List.filter_sublist.trans List.filter_sublist
  · exact List.filter_sublist

theorem switch_shrinks (t : Tree) : Shrinks t.size [switch src t] := by
  refine shrinks_node.mpr (shrinks_iff.mpr fun p hp => ?_)
  obtain ⟨c, hc, rfl⟩ := List.mem_map.mp hp
  have hct : c.size < t.size := by
    unfold clauses at hc
    cases hb : t.field? "body" with
    | none => simp [hb] at hc
    | some b =>
      rw [hb, Option.elim_some] at hc
      exact Nat.lt_trans (size_lt_of_statements (List.mem_filter.mp hc).1) (size_lt_of_field? hb)
  refine shrinks_node.mpr (shrinks_visit.mpr fun s hs => ?_)
  exact Nat.lt_trans (size_lt_of_mem ((clauseStatements_sublist c).subset hs)) hct

theorem tryBlock_shrinks (t : Tree) : Shrinks t.size [tryBlock src t] := by
  refine shrinks_node.mpr (shrinks_append.mpr ⟨shrinks_append.mpr ⟨body_shrinks t, ?_⟩, ?_⟩)
  · refine shrinks_iff.mpr fun p hp => ?_
    obtain ⟨h, hh, rfl⟩ := List.mem_map.mp hp
    have hlt := size_lt_of_field? (Option.mem_toList.mp hh)
    exact shrinks_node.mpr ((body_shrinks h).mono (Nat.le_of_lt hlt))
  · refine shrinks_iff.mpr fun p hp => ?_
    obtain ⟨f, hf, rfl⟩ := List.mem_map.mp hp
    have hlt := size_lt_of_field? (Option.mem_toList.mp hf)
    refine shrinks_node.mpr (shrinks_visit_one.mpr ?_)
    cases hbody : f.field? "body" with
    | none => exact hlt
    | some b => exact Nat.lt_trans (size_lt_of_field? hbody) hlt

theorem expression_shrinks (stmt : Tree) : Shrinks stmt.size (expression src stmt) := by
  unfold expression
  split
  · exact nofun
  · rename_i e he
    obtain ⟨f, hf, he⟩ := Option.bind_eq_some_iff.mp he
    have hlt : e.size < stmt.size :=
      Nat.lt_of_le_of_lt (size_le_of_unwrap f e he) (size_lt_of_firstStatement? hf)
    split_ifs
    · unfold callPlan
      split
      · rename_i fn hfn
        have hfn := size_lt_of_unwrap (Option.filter_eq_some_iff.mp hfn).1
        exact (immediate_shrinks stmt fn).mono (Nat.le_of_lt (Nat.lt_trans hfn hlt))
      · split <;> exact shrinks_leaf _
    · unfold assignment
      split <;> exact shrinks_leaf _
    · exact shrinks_leaf _
    · exact nofun

theorem ofTree_shrinks (name : Option String) (t : Tree) :
    Shrinks t.size (ofTree src name t) := by
  unfold ofTree
  split
  · exact shrinks_visit.mpr fun _ hs => size_lt_of_statements hs
  · exact function_shrinks name t
  · exact declaration_shrinks t
  · exact ladder_shrinks t.size t
  · exact switch_shrinks t
  · exact shrinks_node.mpr (body_shrinks t)
  · exact shrinks_node.mpr (body_shrinks t)
  · exact shrinks_node.mpr (body_shrinks t)
  · exact shrinks_node.mpr (body_shrinks t)
  · exact tryBlock_shrinks t
  · exact shrinks_leaf _
  · exact shrinks_leaf _
  · exact body_shrinks t
  · exact expression_shrinks t
  · exact nofun

end
end Plan

namespace Tree
open Plan
variable {src : Source}

theorem size_pos (t : Tree) : 0 < t.size := by
  cases t with
  | node m cs =>
    rw [size]
    omega

/-- More depth than the tree is large changes nothing. -/
theorem outlineWithin_of_size_le {depth : Nat} {name : Option String} {t : Tree}
    (h : t.size ≤ depth) : outlineWithin src depth name t = t.outline src name := by
  unfold outline
  -- Both depths may be larger than the tree, so that they can go down together.
  suffices hboth : ∀ d d' t name, size t ≤ d → size t ≤ d' →
      outlineWithin src d name t = outlineWithin src d' name t from
    hboth _ _ t name h (Nat.le_refl _)
  intro d
  induction d with
  | zero =>
    intro d' t name hd
    have := t.size_pos
    omega
  | succ d ih =>
    intro d' t name hd hd'
    cases d' with
    | zero =>
      have := t.size_pos
      omega
    | succ d' =>
      rw [outlineWithin, outlineWithin]
      refine resolveAll_congr _ fun v hv => ?_
      have hlt := ofTree_shrinks name t v hv
      exact ih d' v.2 v.1 (by omega) (by omega)

/-- The outline of a tree is made of the outlines of the trees that its parts visit. -/
theorem outline_eq (name : Option String) (t : Tree) :
    t.outline src name = resolveAll (fun name u => u.outline src name) (ofTree src name t) := by
  obtain ⟨depth, hd⟩ : ∃ depth, t.size = depth + 1 := ⟨t.size - 1, by have := t.size_pos; omega⟩
  rw [outline, hd, outlineWithin]
  refine resolveAll_congr _ fun v hv => outlineWithin_of_size_le ?_
  have hlt := ofTree_shrinks name t v hv
  omega

end Tree

namespace Plan
open Flowchart.Tree
variable {src : Source}

def falseArm (src : Source) (t : Tree) : List Plan :=
  (alternative? t).toList.map (arm src .onFalse)

/-- A conditional that visits what follows `else`, be it another conditional or not. -/
def conditional (src : Source) (t : Tree) : Plan :=
  node (conditionEntry src t) (trueArm src t ++ falseArm src t)

/-- A ladder with enough rungs is the conditional that visits its alternative. -/
theorem resolve_ladder {rungs : Nat} {t : Tree} (h : t.size ≤ rungs) :
    (ladder src rungs t).resolve (fun name u => u.outline src name) =
      (conditional src t).resolve fun name u => u.outline src name := by
  induction hn : t.size using Nat.strongRecOn generalizing rungs t with
  | ind n ih =>
    subst hn
    cases rungs with
    | zero =>
      have := t.size_pos
      omega
    | succ rungs =>
      rw [ladder, conditional, resolve, resolve, resolveAll_append, resolveAll_append, falseArm]
      cases ha : alternative? t with
      | none => rfl
      | some a =>
        have hlt := size_lt_of_alternative? ha
        by_cases hif : a.type = "if_statement"
        · -- The alternative visited on its own is a ladder of its own height.
          have hvisit : a.outline src none =
              (conditional src a).resolve fun name u => u.outline src name := by
            rw [outline_eq, ofTree, construct_eq_conditional_iff.mpr hif, resolveAll, resolveAll,
              List.append_nil, ih a.size hlt (Nat.le_refl _) rfl]
          simp only [if_pos hif, Option.toList_some, List.map_singleton, arm, resolveAll, resolve,
            List.append_nil]
          rw [ih a.size hlt (by omega) rfl, hvisit]
        · simp only [if_neg hif]
          rfl

end Plan
end Flowchart
