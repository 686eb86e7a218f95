import Flowchart.Proofs.Flow.Renumbering

/-! Chains of conditionals. A chain can be followed in a loop, which goes from one condition to the
next, or by recursion, which walks what stands after `else` like any other arm. Both add the same
nodes, and either of them makes the walk what it is. -/
namespace Flowchart

/-- A way to add a tree to the nodes collected so far: below which node, with the name that a
function without one takes there. -/
abbrev Walker := Builder → Option String → Option String → Tree → Builder

namespace Plan

mutual

/-- Adds a part node by node. The trees that it visits are left to `walk`. -/
def runWith (walk : Walker) (b : Builder) (parent : Option String) : Plan → Builder
  | visit name t => walk b parent name t
  | node e parts => runAllWith walk (b.addNode parent e).1 (b.addNode parent e).2 parts

def runAllWith (walk : Walker) (b : Builder) (parent : Option String) : List Plan → Builder
  | [] => b
  | p :: ps => runAllWith walk (p.runWith walk b parent) parent ps

end

mutual

theorem runWith_walk (b : Builder) (parent : Option String) :
    (p : Plan) → p.runWith Builder.walk b parent = p.run b parent
  | visit name t => rfl
  | node e parts => by rw [runWith, run, runAllWith_walk _ _ parts]

theorem runAllWith_walk (b : Builder) (parent : Option String) :
    (ps : List Plan) → runAllWith Builder.walk b parent ps = runAll b parent ps
  | [] => rfl
  | p :: ps => by rw [runAllWith, runAll, runWith_walk b parent p, runAllWith_walk _ _ ps]

end

mutual

theorem runWith_congr {walk walk' : Walker} (b : Builder) (parent : Option String) :
    (p : Plan) → (∀ v ∈ p.targets, ∀ b parent, walk b parent v.1 v.2 = walk' b parent v.1 v.2) →
      p.runWith walk b parent = p.runWith walk' b parent
  | visit name t => fun h => h (name, t) (List.mem_singleton_self _) b parent
  | node e parts => fun h => by rw [runWith, runWith, runAllWith_congr _ _ parts h]

/-- Only what is done with the visited trees matters. -/
theorem runAllWith_congr {walk walk' : Walker} (b : Builder) (parent : Option String) :
    (ps : List Plan) →
      (∀ v ∈ targetsAll ps, ∀ b parent, walk b parent v.1 v.2 = walk' b parent v.1 v.2) →
      runAllWith walk b parent ps = runAllWith walk' b parent ps
  | [] => fun _ => rfl
  | p :: ps => fun h => by
    rw [targetsAll] at h
    rw [runAllWith, runAllWith,
      runWith_congr b parent p fun v hv => h v (List.mem_append_left _ hv),
      runAllWith_congr _ _ ps fun v hv => h v (List.mem_append_right _ hv)]

end

end Plan

namespace Builder
open Plan

/-- Adds an arm of the condition with a given id: a branch node, and below it what is in the arm. -/
def addArm (walk : Walker) (b : Builder) (id : String) (branch : Branch) (t : Tree) : Builder :=
  let armNode := b.addNode id (branchEntry b.source branch t)
  walk armNode.1 armNode.2 none t

/-- Adds a condition with its true arm, if there is one, and tells the id of the condition. -/
def addCondition (walk : Walker) (b : Builder) (parent : Option String) (t : Tree) :
    Builder × String :=
  let node := b.addNode parent (conditionEntry b.source t)
  ((t.field? "consequence").elim node.1 (node.1.addArm walk node.2 .onTrue), node.2)

/-- A conditional by recursion: what stands after `else` is an arm, be it a conditional or not. -/
def addConditional (walk : Walker) (b : Builder) (parent : Option String) (t : Tree) :
    Builder × String :=
  let condition := b.addCondition walk parent t
  ((alternative? t).elim condition.1 (condition.1.addArm walk condition.2 .onFalse), condition.2)

/-- A conditional in a loop. While another one stands after `else`, the loop goes on with it below
a branch node of its own; `first` is the id of the condition that the loop began with. -/
def followChain (walk : Walker) (b : Builder) (parent first : Option String) (t : Tree) :
    Builder × String :=
  let condition := b.addCondition walk parent t
  let first := first.getD condition.2
  match _h : alternative? t with
  | none => (condition.1, first)
  | some a =>
    if a.type = "if_statement" then
      let armNode := condition.1.addNode condition.2 (branchEntry condition.1.source .onFalse a)
      followChain walk armNode.1 armNode.2 first a
    else (condition.1.addArm walk condition.2 .onFalse a, first)
termination_by t.size
decreasing_by exact size_lt_of_alternative? _h

/-- A conditional in a loop, from its first condition on. -/
def addChain (walk : Walker) (b : Builder) (parent : Option String) (t : Tree) :
    Builder × String :=
  b.followChain walk parent none t

/-- `walk` adds conditionals as `addIf` does, and any other tree part by part. -/
structure IsWalk (addIf : Walker → Builder → Option String → Tree → Builder × String)
    (walk : Walker) : Prop where
  conditional : ∀ b parent name t, t.type = "if_statement" →
    walk b parent name t = (addIf walk b parent t).1
  other : ∀ b parent name t, t.type ≠ "if_statement" →
    walk b parent name t = runAllWith walk b parent (ofTree b.source name t)

/-- Two walks do the same with a tree, wherever they come to it. -/
def AgreeOn (walk walk' : Walker) (t : Tree) : Prop :=
  ∀ b parent name, walk b parent name t = walk' b parent name t

section
variable {walk walk' : Walker}

/-- For a walk that goes through conditionals by recursion, the loop does what the recursion
does. -/
theorem followChain_eq
    (hwalk : ∀ b parent name t, t.type = "if_statement" →
      walk b parent name t = (addConditional walk b parent t).1)
    (b : Builder) (parent first : Option String) (t : Tree) :
    b.followChain walk parent first t =
      ((b.addConditional walk parent t).1, first.getD (b.addConditional walk parent t).2) := by
  induction hn : t.size using Nat.strongRecOn generalizing b parent first t with
  | ind n ih =>
    subst hn
    rw [followChain, addConditional]
    split
    · rename_i hnone
      rw [hnone]
      rfl
    · rename_i a ha
      rw [ha, Option.elim_some]
      split_ifs with hif
      · -- The recursion walks the alternative, where the loop goes on.
        rw [ih a.size (size_lt_of_alternative? ha) _ _ _ a rfl, addArm, hwalk _ _ _ a hif]
        rfl
      · rfl

theorem addArm_congr {t : Tree} (h : AgreeOn walk walk' t) (b : Builder) (id : String)
    (branch : Branch) : b.addArm walk id branch t = b.addArm walk' id branch t := by
  rw [addArm, addArm, h]

/-! Conditionals are added in the same way by two walks that agree on all smaller trees. -/

variable {n : Nat} (hsmaller : ∀ t, t.size < n → AgreeOn walk walk' t)
include hsmaller

theorem addCondition_congr {t : Tree} (ht : t.size ≤ n) (b : Builder) (parent : Option String) :
    b.addCondition walk parent t = b.addCondition walk' parent t := by
  rw [addCondition, addCondition]
  cases hc : t.field? "consequence" with
  | none => rfl
  | some c =>
    have hlt := Tree.size_lt_of_field? hc
    rw [Option.elim_some, Option.elim_some, addArm_congr (hsmaller c (by omega))]

theorem addConditional_congr {t : Tree} (ht : t.size ≤ n) (b : Builder) (parent : Option String) :
    b.addConditional walk parent t = b.addConditional walk' parent t := by
  rw [addConditional, addConditional, addCondition_congr hsmaller ht]
  cases ha : alternative? t with
  | none => rfl
  | some a =>
    have hlt := size_lt_of_alternative? ha
    rw [Option.elim_some, Option.elim_some, addArm_congr (hsmaller a (by omega))]

theorem followChain_congr {t : Tree} (ht : t.size ≤ n) (b : Builder)
    (parent first : Option String) :
    b.followChain walk parent first t = b.followChain walk' parent first t := by
  induction hm : t.size using Nat.strongRecOn generalizing b parent first t with
  | ind m ih =>
    subst hm
    rw [followChain, followChain, addCondition_congr hsmaller ht]
    split
    · rfl
    · rename_i a ha
      have hlt := size_lt_of_alternative? ha
      rw [addArm_congr (hsmaller a (by omega)), ih a.size hlt (by omega) _ _ _ rfl]

end

/-- There is at most one walk, when conditionals look at smaller trees only. -/
theorem IsWalk.unique {addIf : Walker → Builder → Option String → Tree → Builder × String}
    (hlocal : ∀ (walk walk' : Walker) (t : Tree), (∀ u, u.size < t.size → AgreeOn walk walk' u) →
      ∀ b parent, addIf walk b parent t = addIf walk' b parent t)
    {walk walk' : Walker} (h : IsWalk addIf walk) (h' : IsWalk addIf walk') : walk = walk' := by
  suffices hall : ∀ t, AgreeOn walk walk' t by
    funext b parent name t
    exact hall t b parent name
  intro t
  induction hn : t.size using Nat.strongRecOn generalizing t with
  | ind n ih =>
    subst hn
    intro b parent name
    have hsmaller : ∀ u, u.size < t.size → AgreeOn walk walk' u := fun u hu => ih u.size hu u rfl
    by_cases hif : t.type = "if_statement"
    · rw [h.conditional b parent name t hif, h'.conditional b parent name t hif,
        hlocal walk walk' t hsmaller]
    · rw [h.other b parent name t hif, h'.other b parent name t hif]
      refine runAllWith_congr b parent _ fun v hv b parent => ?_
      exact hsmaller v.2 (ofTree_shrinks name t v hv) b parent v.1

/-- A conditional is walked by recursion. -/
theorem walk_conditional (b : Builder) (parent name : Option String) {t : Tree}
    (h : t.type = "if_statement") :
    b.walk parent name t = (b.addConditional Builder.walk parent t).1 := by
  have hplan : b.walk parent name t = (conditional b.source t).run b parent := by
    rw [walk_eq_runAll, ofTree, Tree.construct_eq_conditional_iff.mpr h, run_eq_add]
    simp only [runAll]
    rw [run_eq_add, resolve_ladder (Nat.le_refl _)]
  rw [hplan, conditional, run, addConditional, addCondition, trueArm, falseArm]
  cases t.field? "consequence" <;> cases alternative? t <;> rfl

theorem isWalk_addConditional : IsWalk addConditional Builder.walk where
  conditional b parent name _ h := walk_conditional b parent name h
  other b parent name t _ := by rw [runAllWith_walk, walk_eq_runAll]

theorem addChain_walk (b : Builder) (parent : Option String) (t : Tree) :
    b.addChain Builder.walk parent t = b.addConditional Builder.walk parent t :=
  followChain_eq isWalk_addConditional.conditional b parent none t

theorem isWalk_addChain : IsWalk addChain Builder.walk where
  conditional b parent name t h := by rw [addChain_walk, walk_conditional b parent name h]
  other := isWalk_addConditional.other

/-- From any nodes collected so far and below any parent, the loop along an else-if chain adds the
same nodes and tells the same id as the recursion, which adds a false branch node and walks what
stands after `else` below it. So the walk that goes through conditionals in a loop and the one that
goes through them by recursion are both unique, and the same. -/
theorem addChain_recursion :
    (∀ (b : Builder) (parent : Option String) (t : Tree),
      b.addChain Builder.walk parent t = b.addConditional Builder.walk parent t) ∧
    (∀ walk : Walker, IsWalk addChain walk ↔ walk = Builder.walk) ∧
    ∀ walk : Walker, IsWalk addConditional walk ↔ walk = Builder.walk := by
  refine ⟨addChain_walk, fun walk => ⟨fun h => ?_, ?_⟩, fun walk => ⟨fun h => ?_, ?_⟩⟩
  · refine IsWalk.unique (fun walk walk' t hsmaller b parent => ?_) h isWalk_addChain
    exact followChain_congr hsmaller (Nat.le_refl _) b parent none
  · rintro rfl
    exact isWalk_addChain
  · refine IsWalk.unique (fun walk walk' t hsmaller b parent => ?_) h isWalk_addConditional
    exact addConditional_congr hsmaller (Nat.le_refl _) b parent
  · rintro rfl
    exact isWalk_addConditional

/-- The tree of two conditionals without conditions and true arms, the second one in the else clause
of the first, with an empty else clause of its own. -/
def bareChain : Tree :=
  let mark (type : String) (start : Int) (field : Option String) : Mark :=
    ⟨type, true, false, false, ⟨start, 16⟩, field⟩
  .node (mark "if_statement" 0 none) [
    .node (mark "else_clause" 3 (some "alternative")) [
      .node (mark "if_statement" 8 none) [
        .node (mark "else_clause" 11 (some "alternative")) []]]]

example :
    let src := Source.ofString "if else if else "
    ((Builder.mk src 0 []).addChain Builder.walk none bareChain).1.nodes.map
      (fun n => (n.id, n.parent, n.label)) =
        [("node_0", none, "if (?)"), ("node_1", some "node_0", "false"),
          ("node_2", some "node_1", "if (?)")] := by decide +kernel

end Builder
end Flowchart
