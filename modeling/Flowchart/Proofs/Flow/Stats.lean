import Flowchart.Flow.Stats
import Flowchart.Proofs.Flow.NearestShown

/-! The numbers of a flow and those of its logic view. Headings sort the nodes that are counted,
and the logic view leaves out the nodes of three of them. -/
namespace Flowchart
namespace Stats

/-- The numbers in which nodes are counted by what they are. -/
inductive Heading where
  | functions
  | conditions
  | loops
  | platformCalls
  | tryCatch
  | returns
  | varDecls
  | calls
  | assignments
  deriving DecidableEq

namespace Heading

def number (s : Stats) : Heading → Nat
  | functions => s.functions
  | conditions => s.conditions
  | loops => s.loops
  | platformCalls => s.platformCalls
  | tryCatch => s.tryCatch
  | returns => s.returns
  | varDecls => s.varDecls
  | calls => s.calls
  | assignments => s.assignments

/-- The logic view has the nodes under this heading. -/
def inLogic : Heading → Bool
  | varDecls | calls | assignments => false
  | _ => true

/-- The heading of an entry. Arms, clauses and exits other than returns have none. -/
def of? (e : Entry) : Option Heading :=
  match e.kind with
  | .function => some functions
  | .condition | .switch => some conditions
  | .loop => some loops
  | .platformCall => some platformCalls
  | .varDecl => some (if e.isPlatformInstance then platformCalls else varDecls)
  | .tryStmt => some tryCatch
  | .returnStmt => some returns
  | .genericCall => some calls
  | .assignment | .genericAssignment => some assignments
  | _ => none

/-- One more under the heading of the entry, and no other number changes. -/
theorem number_count (h : Heading) (s : Stats) (e : Entry) :
    h.number (s.count e) = h.number s + if of? e = some h then 1 else 0 := by
  unfold count countHeading of?
  cases e.kind
  case varDecl => cases e.isPlatformInstance <;> cases h <;> rfl
  all_goals cases h <;> rfl

/-- The nodes that the logic view leaves out are those under the headings that it is without. -/
theorem inLogic_node (n : FlowNode) : n.inLogic = (of? n.toEntry).all inLogic := by
  unfold FlowNode.inLogic of?
  cases n.kind
  case varDecl => cases n.isPlatformInstance <;> rfl
  all_goals rfl

end Heading

theorem number_ofNodes (h : Heading) (nodes : List FlowNode) :
    h.number (ofNodes nodes) = nodes.countP (Heading.of? ·.toEntry = some h) := by
  suffices hrun : ∀ s : Stats, h.number (nodes.foldl (fun s n => s.count n.toEntry) s) =
      h.number s + nodes.countP (Heading.of? ·.toEntry = some h) by
    have hzero : h.number {} = 0 := by cases h <;> rfl
    rw [ofNodes, hrun, hzero, Nat.zero_add]
  induction nodes with
  | nil => exact fun _ => rfl
  | cons n nodes ih =>
    intro s
    rw [List.foldl_cons, ih, h.number_count, List.countP_cons]
    simp only [decide_eq_true_eq]
    omega

theorem total_count (s : Stats) (e : Entry) : (s.count e).total = s.total + 1 := by
  unfold count countHeading
  cases e.kind
  case varDecl => cases e.isPlatformInstance <;> rfl
  all_goals rfl

theorem total_ofNodes (nodes : List FlowNode) : (ofNodes nodes).total = nodes.length := by
  suffices hrun : ∀ s : Stats, (nodes.foldl (fun s n => s.count n.toEntry) s).total =
      s.total + nodes.length by
    exact (hrun {}).trans (Nat.zero_add _)
  induction nodes with
  | nil => exact fun _ => rfl
  | cons n nodes ih =>
    intro s
    rw [List.foldl_cons, ih, total_count, List.length_cons]
    omega

/-- Where a node belongs makes no difference to the numbers. -/
theorem ofNodes_logicView (nodes : List FlowNode) :
    ofNodes (FlowNode.logicView nodes) = ofNodes (nodes.filter (·.inLogic)) := by
  have hentry : ∀ n, (FlowNode.raised nodes n).toEntry = n.toEntry := by
    intro n
    obtain ⟨r, h⟩ := FlowNode.exists_raised_eq nodes n
    rw [h]
  rw [FlowNode.logicView_eq_map, ofNodes, List.foldl_map]
  simp only [hentry]
  rfl

theorem number_logicView (h : Heading) (nodes : List FlowNode) :
    h.number (ofNodes (FlowNode.logicView nodes)) =
      if h.inLogic then h.number (ofNodes nodes) else 0 := by
  rw [ofNodes_logicView, number_ofNodes, number_ofNodes, List.countP_filter]
  split_ifs with hin
  · refine List.countP_congr fun n _ => ?_
    simp only [Bool.and_eq_true, decide_eq_true_eq, and_iff_left_iff_imp]
    intro he
    rw [Heading.inLogic_node, he]
    exact hin
  · refine List.countP_eq_zero.mpr fun n _ => ?_
    simp only [Bool.and_eq_true, decide_eq_true_eq, not_and]
    intro he
    rw [Heading.inLogic_node, he]
    exact hin

/-- Each node is shown in the logic view, or under one of the three headings that the view is
without. -/
theorem countP_inLogic_add (nodes : List FlowNode) :
    nodes.countP (·.inLogic) + (nodes.countP (Heading.of? ·.toEntry = some .varDecls) +
      nodes.countP (Heading.of? ·.toEntry = some .calls) +
      nodes.countP (Heading.of? ·.toEntry = some .assignments)) = nodes.length := by
  simp only [Heading.inLogic_node]
  induction nodes with
  | nil => rfl
  | cons n nodes ih =>
    simp only [List.countP_cons, List.length_cons, decide_eq_true_eq]
    cases Heading.of? n.toEntry with
    | none =>
      simp
      omega
    | some h => cases h <;> simp [Heading.inLogic] <;> omega

end Stats

open Stats

/-- The logic view has as many nodes under each heading as the whole flow, but no plain variables,
generic calls and assignments. Its total is smaller by as many nodes as are under these three. -/
theorem stats_logicView (nodes : List FlowNode) :
    let all := ofNodes nodes
    let logic := ofNodes (View.logic.apply nodes)
    logic.functions = all.functions ∧ logic.conditions = all.conditions ∧
      logic.loops = all.loops ∧ logic.decisions = all.decisions ∧
      logic.platformCalls = all.platformCalls ∧ logic.tryCatch = all.tryCatch ∧
      logic.returns = all.returns ∧
      logic.varDecls = 0 ∧ logic.calls = 0 ∧ logic.assignments = 0 ∧
      logic.total + (all.varDecls + all.calls + all.assignments) = all.total := by
  intro all logic
  have hnumber (h : Heading) : h.number logic = if h.inLogic then h.number all else 0 :=
    number_logicView h nodes
  have hconditions : logic.conditions = all.conditions := hnumber .conditions
  have hloops : logic.loops = all.loops := hnumber .loops
  refine ⟨hnumber .functions, hconditions, hloops, ?_, hnumber .platformCalls, hnumber .tryCatch,
    hnumber .returns, hnumber .varDecls, hnumber .calls, hnumber .assignments, ?_⟩
  · rw [decisions, decisions, hconditions, hloops]
  · have htotal : logic.total = nodes.countP (·.inLogic) := by
      rw [List.countP_eq_length_filter]
      exact (congrArg total (ofNodes_logicView nodes)).trans (total_ofNodes _)
    have hvarDecls : all.varDecls = _ := number_ofNodes .varDecls nodes
    have hcalls : all.calls = _ := number_ofNodes .calls nodes
    have hassignments : all.assignments = _ := number_ofNodes .assignments nodes
    rw [htotal, hvarDecls, hcalls, hassignments, total_ofNodes]
    exact countP_inLogic_add nodes

end Flowchart
