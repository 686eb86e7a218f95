import Flowchart.Proofs.Diagram.EdgeRules

/-! How the catch clauses of a flow are entered. A catch clause is a child of its try statement,
right behind the nodes of the body. -/
namespace Flowchart
namespace FlowNode

/-- The way an exception takes from a try statement to its catch clause. -/
def exceptionEdge (p n : FlowNode) : Edge :=
  ⟨p.id, n.id, .exceptionPath, none⟩

/-- The way on from one node to the next. -/
def onwardEdge (m n : FlowNode) : Edge :=
  ⟨m.id, n.id, .sequential, none⟩

/-- Every edge into `n` is the way of an exception from the try statement that `n` belongs to. -/
def OnlyByException (nodes : List FlowNode) (n : FlowNode) : Prop :=
  ∀ e ∈ edges nodes, e.target = n.id →
    ∃ p ∈ nodes, p.kind = .tryStmt ∧ n.parent = some p.id ∧ e = exceptionEdge p n

instance (nodes : List FlowNode) (n : FlowNode) : Decidable (OnlyByException nodes n) :=
  inferInstanceAs (Decidable (∀ e ∈ edges nodes, e.target = n.id →
    ∃ p ∈ nodes, p.kind = .tryStmt ∧ n.parent = some p.id ∧ e = exceptionEdge p n))

variable {nodes : List FlowNode} {n p : FlowNode}

namespace IsFlow

/-- The body of the try statement comes before its catch clause, and only a finalizer behind it. -/
theorem catch_split (h : IsFlow nodes) (hn : n ∈ nodes) (hk : n.kind = .catchClause) :
    ∃ p ∈ nodes, p.kind = .tryStmt ∧ n.parent = some p.id ∧
      ∃ after, childrenOf nodes p.id = before nodes n ++ n :: after ∧
        (∀ m ∈ before nodes n, m.kind.isHandler = false) ∧
        ∀ m ∈ after, m.kind = .finallyClause := by
  obtain ⟨p, hpm, hp, hpk⟩ := h.handler_parent n hn (by rw [hk]; rfl)
  obtain ⟨body, handlers, he, hbody, hlast⟩ := h.handlers_last p hpm hpk
  have hmem : n ∈ body ++ handlers := he ▸ h.mem_childrenOf.mpr ⟨hn, hp⟩
  have hhandler : n ∈ handlers := by
    refine (List.mem_append.mp hmem).resolve_left fun hb => ?_
    have hb := hbody n hb
    rw [hk] at hb
    cases hb
  cases handlers with
  | nil => cases hhandler
  | cons k after =>
    have hafter : ∀ m ∈ after, m.kind = .finallyClause := by
      intro m hm
      have hm := hlast.tail.subset (List.mem_map_of_mem hm)
      simpa using hm
    -- A finalizer is no catch clause, so that the first handler is the one in question.
    have hkn : k = n := by
      refine ((List.mem_cons.mp hhandler).resolve_right fun hin => ?_).symm
      have hin := hafter n hin
      rw [hk] at hin
      cases hin
    subst hkn
    obtain ⟨after', he'⟩ := h.children_split hn hp
    obtain ⟨-, rfl, rfl⟩ := h.split_unique he he'
    exact ⟨p, hpm, hpk, hp, after, he, hbody, hafter⟩

/-- A catch clause is entered by an exception, and by what stands right before it unless execution
ends there. -/
theorem mem_edges_catch_iff (h : IsFlow nodes) (hn : n ∈ nodes) (hk : n.kind = .catchClause)
    (hpm : p ∈ nodes) (hpk : p.kind = .tryStmt) (hp : n.parent = some p.id) {e : Edge} :
    e ∈ edges nodes ∧ e.target = n.id ↔ e = exceptionEdge p n ∨
      ∃ m, (before nodes n).getLast? = some m ∧ m.kind.isTerminal = false ∧ e = onwardEdge m n := by
  have hdrawn : n.isDrawn := by simp [isDrawn, hk]
  have hbefore : drawnBefore nodes n = before nodes n :=
    h.drawnBefore_eq hn hpm hp (by simp [hpk])
  constructor
  · rintro ⟨he, ht⟩
    obtain ⟨q, hqm, k, hkm, -, hq, hent⟩ := h.mem_edges_iff_enters.mp he
    obtain rfl := h.eq_of_id hkm hn (hent.target.symm.trans ht)
    obtain rfl := h.eq_of_parent hpm hqm hp hq
    cases hent with
    | arm hb => simp [hpk] at hb
    | first => simp [exceptionEdge, hpk, hk]
    | @next m hlast hterminal => exact .inr ⟨m, hbefore ▸ hlast, hterminal, rfl⟩
    | handler => simp [exceptionEdge, hk]
  · intro he
    suffices hent : Enters nodes p n e from
      ⟨h.mem_edges_iff_enters.mpr ⟨p, hpm, n, hn, hdrawn, hp, hent⟩, hent.target⟩
    rcases he with rfl | ⟨m, hlast, hterminal, rfl⟩
    · by_cases hb : before nodes n = []
      · have hfirst : Enters nodes p n _ := .first (by simp [hpk]) (hbefore.trans hb)
        simpa [exceptionEdge, hpk, hk] using hfirst
      · have hhandler : Enters nodes p n _ := .handler hpk (by rw [hk]; rfl) hb
        simpa [exceptionEdge, hk] using hhandler
    · exact .next (hbefore.symm ▸ hlast) hterminal

end IsFlow
end FlowNode

open FlowNode

/-- The catch clauses of a script in either view. An edge into one comes from its try statement, as
the way of an exception, or goes on from the last node of the body. It is the first alone just when
the body shows no node or ends with an exit or a jump. -/
theorem edges_into_catch (v : View) (src : Source) (t : Tree) :
    let nodes := v.apply (extract src t)
    ∀ n ∈ nodes, n.kind = .catchClause →
      ∃ p ∈ nodes, p.kind = .tryStmt ∧ n.parent = some p.id ∧
      ∃ body after, childrenOf nodes p.id = body ++ n :: after ∧
        (∀ m ∈ body, m.kind.isHandler = false) ∧ (∀ m ∈ after, m.kind = .finallyClause) ∧
        (∀ e, e ∈ edges nodes ∧ e.target = n.id ↔ e = exceptionEdge p n ∨
          ∃ m, body.getLast? = some m ∧ m.kind.isTerminal = false ∧ e = onwardEdge m n) ∧
        (OnlyByException nodes n ↔ ∀ m, body.getLast? = some m → m.kind.isTerminal) := by
  intro nodes n hn hk
  have h : IsFlow nodes := isFlow_view v src t
  obtain ⟨p, hpm, hpk, hp, after, hsplit, hbody, hafter⟩ := h.catch_split hn hk
  have hedges (e : Edge) := h.mem_edges_catch_iff hn hk hpm hpk hp (e := e)
  refine ⟨p, hpm, hpk, hp, _, after, hsplit, hbody, hafter, hedges, ?_⟩
  constructor
  · intro halone m hlast
    by_contra hterminal
    obtain ⟨hmem, ht⟩ :=
      (hedges _).mpr (.inr ⟨m, hlast, by simpa using hterminal, rfl⟩)
    obtain ⟨q, -, -, -, he⟩ := halone _ hmem ht
    exact nomatch congrArg Edge.cls he
  · intro hends e hmem ht
    refine ⟨p, hpm, hpk, hp, ((hedges e).mp ⟨hmem, ht⟩).resolve_right ?_⟩
    rintro ⟨m, hlast, hterminal, -⟩
    rw [hends m hlast] at hterminal
    cases hterminal

/-- The text of a try statement with one call in its body and one in its catch clause. -/
def tryText : String :=
  "try \x7b a(); \x7d catch (e) \x7b b(); \x7d"

def tryScript : Tree :=
  let node (type : String) (start stop : Int) (field : Option String) (below : List Tree) : Tree :=
    .node ⟨type, true, false, false, ⟨start, stop⟩, field⟩ below
  let call (start : Int) : Tree :=
    node "expression_statement" start (start + 4) none [
      node "call_expression" start (start + 3) none [
        node "identifier" start (start + 1) (some "function") [],
        node "arguments" (start + 1) (start + 3) (some "arguments") []]]
  node "program" 0 31 none [
    node "try_statement" 0 31 none [
      node "statement_block" 4 12 (some "body") [call 6],
      node "catch_clause" 13 31 (some "handler") [
        node "identifier" 20 21 (some "parameter") [],
        node "statement_block" 23 31 (some "body") [call 25]]]]

theorem edges_into_catch_tryScript :
    let nodes := View.fullOperations.apply (extract (.ofString tryText) tryScript)
    ∃ n ∈ nodes, n.kind = .catchClause ∧
      ∃ p ∈ nodes, p.kind = .tryStmt ∧ n.parent = some p.id ∧
      ∃ body after, childrenOf nodes p.id = body ++ n :: after ∧
        (∀ e, e ∈ edges nodes ∧ e.target = n.id ↔ e = exceptionEdge p n ∨
          ∃ m, body.getLast? = some m ∧ m.kind.isTerminal = false ∧ e = onwardEdge m n) ∧
        (OnlyByException nodes n ↔ ∀ m, body.getLast? = some m → m.kind.isTerminal) := by
  intro nodes
  have hcatch : ∃ n ∈ nodes, n.kind = .catchClause := by decide +kernel
  obtain ⟨n, hn, hk⟩ := hcatch
  obtain ⟨p, hpm, hpk, hp, body, after, hsplit, -, -, hedges, halone⟩ :=
    edges_into_catch .fullOperations (.ofString tryText) tryScript n hn hk
  exact ⟨n, hn, hk, p, hpm, hpk, hp, body, after, hsplit, hedges, halone⟩

/-- With every operation shown, the call in the body leads into the catch clause. The logic view,
which does not show the call, has the way of an exception alone. -/
theorem tryScript_runs_into_catch :
    let nodes := extract (.ofString tryText) tryScript
    let full := View.fullOperations.apply nodes
    let logic := View.logic.apply nodes
    (∃ n ∈ full, n.kind = .catchClause ∧ ¬ OnlyByException full n) ∧
      (∀ n ∈ logic, n.kind = .catchClause → OnlyByException logic n) ∧
      full.map (fun n => (n.id, n.kind)) = [("node_0", .tryStmt), ("node_1", .genericCall),
        ("node_2", .catchClause), ("node_3", .genericCall)] ∧
      (edges full).map (fun e => (e.source, e.target, e.cls)) = [
        ("node_0", "node_1", .sequential), ("node_2", "node_3", .sequential),
        ("node_1", "node_2", .sequential), ("node_0", "node_2", .exceptionPath)] := by
  decide +kernel

end Flowchart
