import Flowchart.Proofs.Flow.OutlineEquation

/-! Extraction piece by piece. What a walk adds depends on the builder by the numbering only, and
the flow nodes of a program are those of its statements, numbered on from one to the next. -/
namespace Flowchart

/-- The number in an id. -/
def idNumber (id : String) : Nat :=
  Nat.ofDigitChars 10 (id.toList.drop "node_".length) 0

@[simp] theorem idNumber_nodeId (n : Nat) : idNumber (nodeId n) = n := by
  have hword : "node_".length = "node_".toList.length := rfl
  rw [idNumber, toList_nodeId, hword, List.drop_left]
  simp

namespace FlowNode

/-- The node that `n` becomes when its numbering begins at `first`, and when nodes without a parent
stand below `parent`. -/
def renumber (first : Nat) (parent : Option String) (n : FlowNode) : FlowNode :=
  { n with
    id := nodeId (first + idNumber n.id)
    parent := n.parent.elim parent fun p => nodeId (first + idNumber p) }

/-- Several lists in a row, each numbered on from the one before it. -/
def renumberEach (first : Nat) : List (List FlowNode) → List FlowNode
  | [] => []
  | ns :: rest => ns.map (renumber first none) ++ renumberEach (first + ns.length) rest

end FlowNode

namespace FlowTree
open FlowNode

mutual

theorem renumber_number (shift first : Nat) (parent outer : Option String) :
    (t : FlowTree) → (t.number first parent).map (renumber shift outer) =
      t.number (shift + first) (parent.elim outer fun p => nodeId (shift + idNumber p))
  | node e cs => by
    rw [number, number, List.map_cons, renumber_numberAll _ _ _ _ cs]
    simp only [renumber, idNumber_nodeId, Option.elim_some, Nat.add_assoc]

/-- Numbering from a later number on, below another node, renumbers the nodes. -/
theorem renumber_numberAll (shift first : Nat) (parent outer : Option String) :
    (ts : List FlowTree) → (numberAll first parent ts).map (renumber shift outer) =
      numberAll (shift + first) (parent.elim outer fun p => nodeId (shift + idNumber p)) ts
  | [] => rfl
  | t :: ts => by
    rw [numberAll, numberAll, List.map_append, renumber_number _ _ _ _ t,
      renumber_numberAll _ _ _ _ ts, Nat.add_assoc]

end

theorem numberAll_eq (first : Nat) (parent : Option String) (ts : List FlowTree) :
    numberAll first parent ts = (numberAll 0 none ts).map (renumber first parent) := by
  rw [renumber_numberAll, Nat.add_zero, Option.elim_none]

theorem sizeAll_append (ts us : List FlowTree) : sizeAll (ts ++ us) = sizeAll ts + sizeAll us := by
  induction ts with
  | nil => rw [List.nil_append, sizeAll, Nat.zero_add]
  | cons t ts ih => rw [List.cons_append, sizeAll, sizeAll, ih, Nat.add_assoc]

theorem numberAll_append (first : Nat) (parent : Option String) (ts us : List FlowTree) :
    numberAll first parent (ts ++ us) =
      numberAll first parent ts ++ numberAll (first + sizeAll ts) parent us := by
  induction ts generalizing first with
  | nil => rfl
  | cons t ts ih =>
    rw [List.cons_append, numberAll, numberAll, sizeAll, ih, List.append_assoc, Nat.add_assoc]

end FlowTree

namespace Builder
open FlowTree

theorem add_add (b : Builder) (parent : Option String) (ts us : List FlowTree) :
    (b.add parent ts).add parent us = b.add parent (ts ++ us) := by
  simp only [add, numberAll_append, sizeAll_append, List.append_assoc, Nat.add_assoc]

/-- A node with trees below it is the node alone, followed by the trees below its id. -/
theorem addNode_add (b : Builder) (parent : Option String) (e : Entry) (ts : List FlowTree) :
    (b.addNode parent e).1.add (b.addNode parent e).2 ts = b.add parent [.node e ts] := by
  simp [addNode, add, numberAll, number, sizeAll, size, Nat.add_assoc]

end Builder

namespace Plan
open Builder

mutual

/-- Adds a part node by node: what stands below a node is added after it, below its id. -/
def run (b : Builder) (parent : Option String) : Plan → Builder
  | visit name t => b.walk parent name t
  | node e parts => runAll (b.addNode parent e).1 (b.addNode parent e).2 parts

def runAll (b : Builder) (parent : Option String) : List Plan → Builder
  | [] => b
  | p :: ps => runAll (p.run b parent) parent ps

end

mutual

theorem run_eq_add (b : Builder) (parent : Option String) :
    (p : Plan) → p.run b parent =
      b.add parent (p.resolve fun name u => u.outline b.source name)
  | visit name t => rfl
  | node e parts => by
    rw [run, resolve, ← addNode_add]
    exact runAll_eq_add _ _ parts

theorem runAll_eq_add (b : Builder) (parent : Option String) :
    (ps : List Plan) → runAll b parent ps =
      b.add parent (resolveAll (fun name u => u.outline b.source name) ps)
  | [] => by
    rw [runAll, resolveAll, add, FlowTree.sizeAll, FlowTree.numberAll, List.append_nil]
    rfl
  | p :: ps => by
    rw [runAll, resolveAll, run_eq_add b parent p, runAll_eq_add _ _ ps, ← add_add]
    rfl

end

end Plan

/-- A walk adds the parts of the tree node by node, and walks the trees that they visit. -/
theorem Builder.walk_eq_runAll (b : Builder) (parent name : Option String) (t : Tree) :
    b.walk parent name t = Plan.runAll b parent (Plan.ofTree b.source name t) := by
  rw [walk, t.outline_eq, Plan.runAll_eq_add]

/-- The flow nodes of a block are those of its statements, one after the other. -/
theorem extract_block (src : Source) {t : Tree} (h : t.construct = .block) :
    extract src t = FlowNode.renumberEach 0 (t.statements.map (extract src)) := by
  have houtline : t.outline src none = t.statements.flatMap (Tree.outline src none) := by
    rw [t.outline_eq, Plan.ofTree, h]
    induction t.statements with
    | nil => rfl
    | cons s ss ih => rw [List.map_cons, Plan.resolveAll, List.flatMap_cons, ih, Plan.resolve]
  have hextract (u : Tree) : extract src u = FlowTree.numberAll 0 none (u.outline src none) := rfl
  suffices hall : ∀ first, FlowTree.numberAll first none
      (t.statements.flatMap (Tree.outline src none)) =
        FlowNode.renumberEach first (t.statements.map (extract src)) by
    rw [hextract, houtline, hall]
  induction t.statements with
  | nil => exact fun _ => rfl
  | cons s ss ih =>
    intro first
    rw [List.map_cons, List.flatMap_cons, FlowTree.numberAll_append, FlowNode.renumberEach, ih,
      hextract s, FlowTree.length_numberAll, ← FlowTree.numberAll_eq]

/-- A walk adds node by node, and walks what it visits with the same builder. It leaves the nodes
collected so far and adds those that a new builder collects for the tree, renumbered from the next
number on and with the given parent above them. So the flow nodes of a program are those of its
statements, each numbered on from the one before it. -/
theorem walk_renumber :
    (∀ (b : Builder) (parent name : Option String) (t : Tree),
      b.walk parent name t = Plan.runAll b parent (Plan.ofTree b.source name t)) ∧
    (∀ (b : Builder) (parent name : Option String) (t : Tree),
      let fresh := ((Builder.mk b.source 0 []).walk none name t).nodes
      let after := b.walk parent name t
      after.nodes = b.nodes ++ fresh.map (FlowNode.renumber b.next parent) ∧
        after.next = b.next + fresh.length ∧ after.source = b.source) ∧
    ∀ (src : Source) (t : Tree), t.type = "program" →
      extract src t = FlowNode.renumberEach 0 (t.statements.map (extract src)) := by
  refine ⟨Builder.walk_eq_runAll, fun b parent name t => ⟨?_, ?_, rfl⟩,
    fun src t ht => extract_block src ?_⟩
  · exact congrArg (b.nodes ++ ·) (FlowTree.numberAll_eq b.next parent _)
  · exact congrArg (b.next + ·) (FlowTree.length_numberAll 0 none _).symm
  · exact Tree.construct_of_mem (by simp [constructs, ht])

/-- The tree of a program of two calls. -/
def twoCalls : Tree :=
  let call (start : Int) : Tree :=
    let mark (type : String) (length : Int) (field : Option String) : Mark :=
      ⟨type, true, false, false, ⟨start, start + length⟩, field⟩
    .node (mark "expression_statement" 4 none) [
      .node (mark "call_expression" 3 none) [
        .node (mark "identifier" 1 (some "function")) []]]
  .node ⟨"program", true, false, false, ⟨0, 8⟩, none⟩ [call 0, call 4]

theorem walk_renumber_twoCalls :
    let src := Source.ofString "f();g();"
    twoCalls.type = "program" ∧ (extract src twoCalls).map (·.label) = ["f()", "g()"] ∧
      extract src twoCalls = FlowNode.renumberEach 0 (twoCalls.statements.map (extract src)) :=
  ⟨rfl, by decide +kernel, walk_renumber.2.2 _ twoCalls rfl⟩

end Flowchart
