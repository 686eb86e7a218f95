import Flowchart.Proofs.Flow.Occurrence
import Mathlib.Logic.Relation

/-! Which nodes of a syntax tree stand in statement position: the ones that a script is read by. -/
namespace Flowchart

namespace Tree

def IsBlock (t : Tree) : Prop :=
  t.type ∈ ["program", "statement_block"]

def IsDeclaration (t : Tree) : Prop :=
  t.type ∈ ["lexical_declaration", "variable_declaration"]

/-- Functions, loops and labels have a statement in their field `body`. -/
def HasBody (t : Tree) : Prop :=
  t.isFunction ∨
    t.type ∈ ["function_declaration", "generator_function_declaration", "while_statement",
      "do_statement", "for_statement", "for_in_statement", "labeled_statement"]

def IsClause (t : Tree) : Prop :=
  t.type ∈ ["switch_case", "switch_default"]

end Tree

namespace Occurrence

/-- `c` is a clause of the switch statement `p`. -/
def HasClause (p c : Occurrence) : Prop :=
  p.tree.type = "switch_statement" ∧
    ∃ b, p.field? "body" = some b ∧ c ∈ b.statements ∧ c.tree.IsClause

/-- `v` is the value of a variable of the declaration `p`, without parentheses around it. -/
def Declares (p v : Occurrence) : Prop :=
  p.tree.IsDeclaration ∧
    ∃ d ∈ p.children, d.tree.named ∧ d.tree.type = "variable_declarator" ∧
      ∃ u, d.field? "value" = some u ∧ u.unwrap = some v

/-- The statement `p` is a call of `f`, where parentheses may stand around the call and around
`f`. -/
def Calls (p f : Occurrence) : Prop :=
  p.tree.type = "expression_statement" ∧
    ∃ e x, p.firstStatement? = some e ∧ e.unwrap = some x ∧ x.tree.type = "call_expression" ∧
      ∃ u, x.field? "function" = some u ∧ u.unwrap = some f

/-- `q` is read as a part of `p`, with nothing read in between. -/
inductive Holds : Occurrence → Occurrence → Prop where
  | statement {p q : Occurrence} : p.tree.IsBlock → q ∈ p.statements → Holds p q
  | body {p q : Occurrence} : p.tree.HasBody → p.field? "body" = some q → Holds p q
  | consequence {p q : Occurrence} :
    p.tree.type = "if_statement" → p.field? "consequence" = some q → Holds p q
  | alternative {p q : Occurrence} :
    p.tree.type = "if_statement" → p.field? "alternative" = some q →
      q.tree.type ≠ "else_clause" → Holds p q
  | elseClause {p e q : Occurrence} :
    p.tree.type = "if_statement" → p.field? "alternative" = some e →
      e.tree.type = "else_clause" → e.firstStatement? = some q → Holds p q
  | clauseBody {p c q : Occurrence} : p.HasClause c → q ∈ c.fields "body" → Holds p q
  /-- In a clause without such a field, all but what stands where the value of the case does. -/
  | clauseRest {p c q : Occurrence} :
    p.HasClause c → c.fields "body" = [] → q ∈ c.statements →
      (∀ v, c.tree.type = "switch_case" → c.field? "value" = some v →
        q.tree.span ≠ v.tree.span) → Holds p q
  | tryBody {p q : Occurrence} :
    p.tree.type = "try_statement" → p.field? "body" = some q → Holds p q
  | handler {p h q : Occurrence} :
    p.tree.type = "try_statement" → p.field? "handler" = some h →
      h.field? "body" = some q → Holds p q
  | finalizerBody {p f q : Occurrence} :
    p.tree.type = "try_statement" → p.field? "finalizer" = some f →
      f.field? "body" = some q → Holds p q
  | finalizer {p q : Occurrence} :
    p.tree.type = "try_statement" → p.field? "finalizer" = some q →
      q.field? "body" = none → Holds p q
  | functionValue {p q : Occurrence} : p.Declares q → q.tree.isFunction → Holds p q
  | calledFunction {p f q : Occurrence} :
    p.Calls f → f.tree.isFunction → f.field? "body" = some q →
      q.tree.type = "statement_block" → Holds p q

end Occurrence

/-- The places that a script is read by: its root and what they hold in turn. -/
def InStatementPosition (root : Tree) : Occurrence → Prop :=
  Relation.ReflTransGen Occurrence.Holds ⟨[], root⟩

namespace Tree

theorem isBlock_iff {t : Tree} : t.IsBlock ↔ t.construct = .block := by
  simp [IsBlock, construct_eq_iff, constructs]

theorem isDeclaration_iff {t : Tree} : t.IsDeclaration ↔ t.construct = .declaration := by
  simp [IsDeclaration, construct_eq_iff, constructs]

theorem hasBody_iff {t : Tree} : t.HasBody ↔
    t.construct ∈ [.function, .whileLoop, .doLoop, .forLoop, .forInLoop, .labeled] := by
  simp [HasBody, construct_eq_function_iff, construct_eq_iff, constructs, or_assoc]

end Tree

namespace Occurrence
open Flowchart.Tree

def alternative? (p : Occurrence) : Option Occurrence :=
  (p.field? "alternative").bind fun e =>
    if e.tree.type = "else_clause" then e.firstStatement? else some e

def clauses (p : Occurrence) : List Occurrence :=
  (p.field? "body").toList.flatMap fun b =>
    b.statements.filter fun c => ["switch_case", "switch_default"].contains c.tree.type

def clauseStatements (c : Occurrence) : List Occurrence :=
  match c.fields "body" with
  | [] =>
    let skip := (Plan.clauseTest? c.tree).map (·.span)
    c.statements.filter (some ·.tree.span ≠ skip)
  | body => body

/-- The body of the finalizer, or all of it. -/
def finalizerBlock? (p : Occurrence) : Option Occurrence :=
  (p.field? "finalizer").map fun f => (f.field? "body").getD f

/-- The values of the variables of a declaration. -/
def values (p : Occurrence) : List Occurrence :=
  (p.children.filter fun d => d.tree.named && d.tree.type = "variable_declarator").filterMap
    fun d => (d.field? "value").bind unwrap

/-- What an expression statement calls. -/
def callee? (p : Occurrence) : Option Occurrence :=
  ((p.firstStatement?.bind unwrap).filter (·.tree.type = "call_expression")).bind
    fun x => (x.field? "function").bind unwrap

/-- The block that a statement runs by calling a function where it is written. -/
def calledBlock? (p : Occurrence) : Option Occurrence :=
  (p.callee?.filter (·.tree.isFunction)).bind fun f =>
    (f.field? "body").filter (·.tree.type = "statement_block")

/-- What is read as a part of a place, in this order. -/
def held (p : Occurrence) : List Occurrence :=
  match p.tree.construct with
  | .block => p.statements
  | .function | .whileLoop | .doLoop | .forLoop | .forInLoop | .labeled =>
    (p.field? "body").toList
  | .declaration => p.values.filter (·.tree.isFunction)
  | .conditional => (p.field? "consequence").toList ++ p.alternative?.toList
  | .switch => p.clauses.flatMap clauseStatements
  | .tryBlock =>
    (p.field? "body").toList ++ ((p.field? "handler").bind (·.field? "body")).toList ++
      p.finalizerBlock?.toList
  | .expression => p.calledBlock?.toList
  | .exit _ | .jump _ | .silent => []

section
variable {p q r : Occurrence}

theorem mem_clauses {c : Occurrence} (hp : p.tree.type = "switch_statement") :
    c ∈ p.clauses ↔ p.HasClause c := by
  simp only [clauses, HasClause, IsClause, hp, true_and, List.mem_flatMap, Option.mem_toList,
    List.mem_filter, List.contains_iff_mem]

theorem mem_values (hp : p.tree.IsDeclaration) : q ∈ p.values ↔ p.Declares q := by
  simp only [values, Declares, hp, true_and, List.mem_filterMap, List.mem_filter,
    Bool.and_eq_true, decide_eq_true_eq, Option.bind_eq_some_iff, and_assoc]

theorem callee?_eq_some_iff (hp : p.tree.type = "expression_statement") :
    p.callee? = some q ↔ p.Calls q := by
  simp only [callee?, Calls, hp, true_and, Option.bind_eq_some_iff, Option.filter_eq_some_iff,
    decide_eq_true_eq]
  constructor
  · rintro ⟨x, ⟨⟨e, he, hx⟩, hty⟩, hf⟩
    exact ⟨e, x, he, hx, hty, hf⟩
  · rintro ⟨e, x, he, hx, hty, hf⟩
    exact ⟨x, ⟨⟨e, he, hx⟩, hty⟩, hf⟩

theorem calledBlock?_eq_some_iff (hp : p.tree.type = "expression_statement") :
    p.calledBlock? = some q ↔ ∃ f, p.Calls f ∧ f.tree.isFunction ∧ f.field? "body" = some q ∧
      q.tree.type = "statement_block" := by
  simp only [calledBlock?, Option.bind_eq_some_iff, Option.filter_eq_some_iff,
    callee?_eq_some_iff hp, decide_eq_true_eq, and_assoc]

theorem mem_clauseStatements {c : Occurrence} :
    q ∈ c.clauseStatements ↔ q ∈ c.fields "body" ∨ c.fields "body" = [] ∧ q ∈ c.statements ∧
      ∀ v, c.tree.type = "switch_case" → c.field? "value" = some v →
        q.tree.span ≠ v.tree.span := by
  have hskip : some q.tree.span ≠ (Plan.clauseTest? c.tree).map (·.span) ↔
      ∀ v, c.tree.type = "switch_case" → c.field? "value" = some v →
        q.tree.span ≠ v.tree.span := by
    rw [Plan.clauseTest?, ← map_field?]
    by_cases hty : c.tree.type = "switch_case"
    · cases hv : c.field? "value" <;> simp [hty]
    · simp [hty]
  unfold clauseStatements
  split
  · rename_i hnil
    rw [List.mem_filter, decide_eq_true_eq, hskip, hnil]
    simp
  · rename_i hcons
    exact (or_iff_left fun h => hcons h.1).symm

theorem alternative?_eq_some_iff : p.alternative? = some q ↔
    ∃ e, p.field? "alternative" = some e ∧
      if e.tree.type = "else_clause" then e.firstStatement? = some q else e = q := by
  rw [alternative?, Option.bind_eq_some_iff]
  refine exists_congr fun e => and_congr_right fun _ => ?_
  split_ifs <;> simp

theorem finalizerBlock?_eq_some_iff : p.finalizerBlock? = some q ↔
    ∃ f, p.field? "finalizer" = some f ∧
      (f.field? "body" = some q ∨ f.field? "body" = none ∧ f = q) := by
  rw [finalizerBlock?, Option.map_eq_some_iff]
  refine exists_congr fun f => and_congr_right fun _ => ?_
  cases f.field? "body" <;> simp

theorem held_of_body (h : p.tree.HasBody) : p.held = (p.field? "body").toList := by
  have hc := hasBody_iff.mp h
  simp only [List.mem_cons, List.not_mem_nil, or_false] at hc
  rw [held]
  rcases hc with hc | hc | hc | hc | hc | hc <;> rw [hc]

theorem holds_of_mem_held (hq : q ∈ p.held) : Holds p q := by
  by_cases hbody : p.tree.HasBody
  · rw [held_of_body hbody, Option.mem_toList] at hq
    exact .body hbody hq
  unfold held at hq
  cases hc : p.tree.construct with
  | block =>
    rw [hc] at hq
    exact .statement (isBlock_iff.mpr hc) hq
  | declaration =>
    rw [hc] at hq
    obtain ⟨hq, hfn⟩ := List.mem_filter.mp hq
    exact .functionValue ((mem_values (isDeclaration_iff.mpr hc)).mp hq) hfn
  | conditional =>
    rw [hc] at hq
    have hp := construct_eq_conditional_iff.mp hc
    rcases List.mem_append.mp hq with hq | hq
    · exact .consequence hp (Option.mem_toList.mp hq)
    · obtain ⟨e, he, hq⟩ := alternative?_eq_some_iff.mp (Option.mem_toList.mp hq)
      split_ifs at hq with hty
      · exact .elseClause hp he hty hq
      · subst hq
        exact .alternative hp he hty
  | switch =>
    rw [hc] at hq
    obtain ⟨c, hcl, hq⟩ := List.mem_flatMap.mp hq
    have hcl := (mem_clauses (construct_eq_switch_iff.mp hc)).mp hcl
    rcases mem_clauseStatements.mp hq with hq | ⟨hnil, hq, hval⟩
    · exact .clauseBody hcl hq
    · exact .clauseRest hcl hnil hq hval
  | tryBlock =>
    rw [hc] at hq
    have hp := construct_eq_tryBlock_iff.mp hc
    simp only [List.mem_append, Option.mem_toList, Option.bind_eq_some_iff,
      finalizerBlock?_eq_some_iff] at hq
    rcases hq with (hq | ⟨h, hh, hq⟩) | ⟨f, hf, hq | ⟨hq, rfl⟩⟩
    · exact .tryBody hp hq
    · exact .handler hp hh hq
    · exact .finalizerBody hp hf hq
    · exact .finalizer hp hf hq
  | expression =>
    rw [hc] at hq
    obtain ⟨f, hf, hfn, hb, hty⟩ := (calledBlock?_eq_some_iff
      (construct_eq_expression_iff.mp hc)).mp (Option.mem_toList.mp hq)
    exact .calledFunction hf hfn hb hty
  | exit k | jump k | silent =>
    rw [hc] at hq
    exact absurd hq List.not_mem_nil
  | function | whileLoop | doLoop | forLoop | forInLoop | labeled =>
    exact absurd (hasBody_iff.mpr (by simp [hc])) hbody

theorem mem_held_of_holds (h : Holds p q) : q ∈ p.held := by
  cases h with
  | statement hp hq =>
    rw [held, isBlock_iff.mp hp]
    exact hq
  | body hp hq =>
    rw [held_of_body hp]
    exact Option.mem_toList.mpr hq
  | consequence hp hq =>
    rw [held, construct_eq_conditional_iff.mpr hp]
    exact List.mem_append_left _ (Option.mem_toList.mpr hq)
  | alternative hp hq hne =>
    rw [held, construct_eq_conditional_iff.mpr hp]
    refine List.mem_append_right _ (Option.mem_toList.mpr ?_)
    refine alternative?_eq_some_iff.mpr ⟨q, hq, ?_⟩
    rw [if_neg hne]
  | elseClause hp he hty hq =>
    rw [held, construct_eq_conditional_iff.mpr hp]
    refine List.mem_append_right _ (Option.mem_toList.mpr ?_)
    refine alternative?_eq_some_iff.mpr ⟨_, he, ?_⟩
    rwa [if_pos hty]
  | clauseBody hc hq =>
    rw [held, construct_eq_switch_iff.mpr hc.1]
    exact List.mem_flatMap.mpr ⟨_, (mem_clauses hc.1).mpr hc, mem_clauseStatements.mpr (.inl hq)⟩
  | clauseRest hc hnil hq hne =>
    rw [held, construct_eq_switch_iff.mpr hc.1]
    exact List.mem_flatMap.mpr
      ⟨_, (mem_clauses hc.1).mpr hc, mem_clauseStatements.mpr (.inr ⟨hnil, hq, hne⟩)⟩
  | tryBody hp hq =>
    rw [held, construct_eq_tryBlock_iff.mpr hp]
    simp [hq]
  | handler hp hh hq =>
    rw [held, construct_eq_tryBlock_iff.mpr hp]
    simp [hh, hq]
  | finalizerBody hp hf hq =>
    rw [held, construct_eq_tryBlock_iff.mpr hp]
    simp [finalizerBlock?, hf, hq]
  | finalizer hp hq hnone =>
    rw [held, construct_eq_tryBlock_iff.mpr hp]
    simp [finalizerBlock?, hq, hnone]
  | functionValue hd hq =>
    rw [held, isDeclaration_iff.mp hd.1]
    exact List.mem_filter.mpr ⟨(mem_values hd.1).mpr hd, hq⟩
  | calledFunction hf hfn hq hty =>
    rw [held, construct_eq_expression_iff.mpr hf.1]
    exact Option.mem_toList.mpr ((calledBlock?_eq_some_iff hf.1).mpr ⟨_, hf, hfn, hq, hty⟩)

/-- The listed places are the ones that a place holds. -/
theorem mem_held_iff : q ∈ p.held ↔ Holds p q :=
  ⟨holds_of_mem_held, mem_held_of_holds⟩

end
end Occurrence
end Flowchart
