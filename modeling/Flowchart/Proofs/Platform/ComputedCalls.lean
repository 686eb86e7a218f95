import Flowchart.Flow.Extract
import Flowchart.Proofs.Platform.Calls

/-! Calls of methods that an index names, such as `x['query']()`. A variable in the index counts by
the name it has in the script, as far as the tables list such names. -/
namespace Flowchart.Platform
open Flowchart.Tree

/-- The call is one of `callee`, a member that `index` computes. -/
structure ComputesMethod (call callee index : Tree) : Prop where
  type_call : call.type = "call_expression"
  called : callee? call = some callee
  type_callee : callee.type = "subscript_expression"
  computed : callee.field? "index" = some index

/-- The receiver of a method, if there is one, by its name, if it has one. -/
def receiver? (src : Source) (callee : Tree) : Option (Option String) :=
  (callee.field? "object").map (receiverName? src)

/-- What a receiver of this name makes of all its methods that are in no table. -/
def receiverCategory (name : Option String) : Option Category :=
  name.bind (receivers.lookup ·)

/-- The tables in which the methods of a receiver are looked up. -/
def tablesFor (name : Option String) : List (List String × Category) :=
  if (receiverCategory name).isSome then recordMethods else recordMethods ++ methodTables

section
variable {src : Source} {call callee index object : Tree}

theorem methodCategory_eq_or (object : Tree) (method : String) :
    methodCategory src object method =
      (categoryIn (tablesFor (receiverName? src object)) method).or
        (receiverCategory (receiverName? src object)) := by
  rw [methodCategory_eq, ← receiverCategory, tablesFor]
  cases receiverCategory (receiverName? src object) with
  | none =>
    rw [Option.isSome_none, if_neg Bool.false_ne_true, Option.or_none, Option.or_none,
      categoryIn_append]
  | some c =>
    rw [Option.isSome_some, if_pos rfl, Option.or_assoc]
    rfl

/-- A category of record methods is never the one of a receiver. -/
theorem ne_of_receiverCategory {name : Option String} {method : String} {c c' : Category}
    (hc : receiverCategory name = some c) (hc' : categoryIn (tablesFor name) method = some c') :
    c' ≠ c := by
  have hdisjoint : ∀ x ∈ recordMethods, ∀ y ∈ receivers, x.2 ≠ y.2 := by decide
  rw [tablesFor, hc, Option.isSome_some, if_pos rfl] at hc'
  obtain ⟨x, hx, rfl⟩ := Option.map_eq_some_iff.mp hc'
  obtain ⟨receiver, -, hlookup⟩ := Option.bind_eq_some_iff.mp hc
  obtain ⟨before, after, hsplit, -⟩ := List.lookup_eq_some_iff.mp hlookup
  have hy : (receiver, c) ∈ receivers := hsplit ▸ List.mem_append_right _ List.mem_cons_self
  exact hdisjoint x (List.mem_of_find?_eq_some hx) _ hy

/-- Two methods of one receiver are for the same just when the tables say so. -/
theorem or_receiverCategory_inj (name : Option String) (m m' : String) :
    (categoryIn (tablesFor name) m).or (receiverCategory name) =
        (categoryIn (tablesFor name) m').or (receiverCategory name) ↔
      categoryIn (tablesFor name) m = categoryIn (tablesFor name) m' := by
  cases hc : receiverCategory name with
  | none => rw [Option.or_none, Option.or_none]
  | some c =>
    cases h : categoryIn (tablesFor name) m with
    | none =>
      cases h' : categoryIn (tablesFor name) m' with
      | none => simp
      | some d' => simpa using (ne_of_receiverCategory hc h').symm
    | some d =>
      cases h' : categoryIn (tablesFor name) m' with
      | none => simpa using ne_of_receiverCategory hc h
      | some d' => simp

theorem ComputesMethod.category_eq (h : ComputesMethod call callee index) :
    (classify src call).map (·.category) = (receiver? src callee).bind fun name =>
      (categoryIn (tablesFor name) (propertyName src (some index))).or (receiverCategory name) := by
  have hparts : memberParts src callee =
      (callee.field? "object").map (·, propertyName src (some index)) := by
    rw [memberParts, h.type_callee, if_neg (by decide), if_pos rfl, h.computed]
  rw [classify_eq, if_pos h.type_call, Option.map_map, h.called, Option.bind_some, calleeCategory,
    hparts, receiver?, Option.bind_map, Option.bind_map]
  simp only [Function.comp_def, methodCategory_eq_or]
  exact Option.map_id'

theorem propertyName_of_identifier (h : index.type = "identifier") :
    propertyName src (some index) = src.textOf index.span := by
  rw [propertyName, h, if_neg (by decide), if_pos (by decide)]

theorem propertyName_of_not_mem (h : index.type ∉ "string" :: nameTypes) :
    propertyName src (some index) = "" := by
  rw [List.mem_cons, not_or] at h
  rw [propertyName, if_neg h.1, if_neg (by simpa using h.2)]

theorem categoryIn_tablesFor_empty (name : Option String) :
    categoryIn (tablesFor name) "" = none := by
  have hnone : categoryIn recordMethods "" = none ∧ categoryIn methodTables "" = none := by decide
  rw [tablesFor]
  split_ifs
  · exact hnone.1
  · rw [categoryIn_append, hnone.1, hnone.2, Option.or_none]

/-- A call of a computed method makes one node, of a platform call if it is classified. -/
theorem ComputesMethod.callPlan_eq (h : ComputesMethod call callee index) (stmt : Tree) :
    ∃ e, Plan.callPlan src stmt call = .node e [] ∧
      e.kind = (if (classify src call).isSome then .platformCall else .genericCall) ∧
      e.subtype = (classify src call).map (·.category.name) := by
  have hfunction : (callee? call).filter Tree.isFunction = none := by
    rw [h.called]
    simp [isFunction, h.type_callee]
  unfold Plan.callPlan
  rw [hfunction]
  cases classify src call with
  | none => exact ⟨_, rfl, rfl, rfl⟩
  | some info => exact ⟨_, rfl, rfl, rfl⟩

theorem assignment_eq (stmt : Tree) {expr : Tree}
    (hright : (expr.field? "right").bind unwrap = some call) :
    ∃ e, Plan.assignment src stmt expr = .node e [] ∧
      e.kind = if (classify src call).isSome then .assignment else .genericAssignment := by
  unfold Plan.assignment
  rw [hright]
  cases hcall : classify src call with
  | some info =>
    have hsome : (some call).filter (isPlatformCall src) = some call := by
      simp [isPlatformCall, hcall]
    rw [hsome]
    exact ⟨_, rfl, rfl⟩
  | none =>
    have hnone : (some call).filter (isPlatformCall src) = none := by simp [isPlatformCall, hcall]
    rw [hnone]
    exact ⟨_, rfl, rfl⟩

end

/-- Which variable an index names counts as far as the tables list its name: two such calls on
receivers of one name are for the same just when the tables of this receiver hold the two names
for the same. The kind of a statement goes by it. An index that is neither a variable nor a string
leaves the decision to the receiver. -/
theorem classify_computed (src : Source) {call callee index : Tree}
    (h : ComputesMethod call callee index) :
    (index.type = "identifier" → ∀ src' call' callee' index', ComputesMethod call' callee' index' →
      index'.type = "identifier" → receiver? src' callee' = receiver? src callee →
      ((classify src' call').map (·.category) = (classify src call).map (·.category) ↔
        ∀ name ∈ receiver? src callee, categoryIn (tablesFor name) (src'.textOf index'.span) =
          categoryIn (tablesFor name) (src.textOf index.span))) ∧
    (index.type ∉ "string" :: nameTypes → (classify src call).map (·.category) =
      (receiver? src callee).bind receiverCategory) ∧
    (∀ stmt, ∃ e, Plan.callPlan src stmt call = .node e [] ∧
      e.kind = (if (classify src call).isSome then .platformCall else .genericCall) ∧
      e.subtype = (classify src call).map (·.category.name)) ∧
    ∀ stmt expr, (expr.field? "right").bind unwrap = some call →
      ∃ e, Plan.assignment src stmt expr = .node e [] ∧
        e.kind = if (classify src call).isSome then .assignment else .genericAssignment := by
  refine ⟨?_, ?_, h.callPlan_eq, fun stmt expr hright => assignment_eq stmt hright⟩
  · intro hindex src' call' callee' index' h' hindex' hreceiver
    rw [h.category_eq, h'.category_eq, hreceiver, propertyName_of_identifier hindex,
      propertyName_of_identifier hindex']
    cases receiver? src callee with
    | none => simp
    | some name => simpa using or_receiverCategory_inj name _ _
  · intro hindex
    rw [h.category_eq, propertyName_of_not_mem hindex]
    simp only [categoryIn_tablesFor_empty, Option.none_or]

/-! Calls such as `x[query]()`, and the assignment `a=x[query]()` of one. -/

def variableIndex : Tree :=
  .node ⟨"identifier", true, false, false, ⟨4, 9⟩, some "index"⟩ []

def numberIndex : Tree :=
  .node ⟨"number", true, false, false, ⟨4, 9⟩, some "index"⟩ []

def computedMember (index : Tree) : Tree :=
  .node ⟨"subscript_expression", true, false, false, ⟨2, 10⟩, some "function"⟩ [
    .node ⟨"identifier", true, false, false, ⟨2, 3⟩, some "object"⟩ [],
    .node ⟨"[", false, false, false, ⟨3, 4⟩, none⟩ [],
    index,
    .node ⟨"]", false, false, false, ⟨9, 10⟩, none⟩ []]

def computedCall (index : Tree) : Tree :=
  .node ⟨"call_expression", true, false, false, ⟨2, 12⟩, some "right"⟩ [
    computedMember index,
    .node ⟨"arguments", true, false, false, ⟨10, 12⟩, some "arguments"⟩ []]

def computedAssignment : Tree :=
  .node ⟨"assignment_expression", true, false, false, ⟨0, 12⟩, none⟩ [
    .node ⟨"identifier", true, false, false, ⟨0, 1⟩, some "left"⟩ [],
    .node ⟨"=", false, false, false, ⟨1, 2⟩, none⟩ [],
    computedCall variableIndex]

theorem classify_computed_query :
    let query := Source.ofString "a=x[query]()"
    let thing := Source.ofString "a=x[thing]()"
    let call := computedCall variableIndex
    let callee := computedMember variableIndex
    ComputesMethod call callee variableIndex ∧ variableIndex.type = "identifier" ∧
    receiver? thing callee = receiver? query callee ∧
    ((classify thing call).map (·.category) = (classify query call).map (·.category) ↔
      ∀ name ∈ receiver? query callee, categoryIn (tablesFor name) (thing.textOf ⟨4, 9⟩) =
        categoryIn (tablesFor name) (query.textOf ⟨4, 9⟩)) ∧
    (∃ e, Plan.assignment query computedAssignment computedAssignment = .node e [] ∧
      e.kind = .assignment) ∧
    (∃ e, Plan.callPlan thing computedAssignment call = .node e [] ∧ e.kind = .genericCall) ∧
    (classify query (computedCall numberIndex)).map (·.category) =
      (receiver? query (computedMember numberIndex)).bind receiverCategory := by
  intro query thing call callee
  have h : ComputesMethod call callee variableIndex := ⟨rfl, rfl, rfl, rfl⟩
  have hnumber : ComputesMethod (computedCall numberIndex) (computedMember numberIndex)
      numberIndex := ⟨rfl, rfl, rfl, rfl⟩
  have hreceiver : receiver? thing callee = receiver? query callee := by decide +kernel
  have hquery : (classify query call).isSome := by decide +kernel
  have hthing : (classify thing call).isSome = false := by decide +kernel
  obtain ⟨hspelling, -, -, hassign⟩ := classify_computed query h
  obtain ⟨-, -, hplan, -⟩ := classify_computed thing h
  obtain ⟨-, hother, -, -⟩ := classify_computed query hnumber
  obtain ⟨e, he, hkind⟩ := hassign computedAssignment computedAssignment rfl
  obtain ⟨e', he', hkind', -⟩ := hplan computedAssignment
  rw [if_pos hquery] at hkind
  rw [if_neg (by simp [hthing])] at hkind'
  exact ⟨h, rfl, hreceiver, hspelling rfl thing call callee variableIndex h rfl hreceiver,
    ⟨e, he, hkind⟩, ⟨e', he', hkind'⟩, hother (by decide)⟩

/-- Two scripts that differ only in how a variable is spelled. -/
theorem classify_reads_spelling :
    let query := Source.ofString "a=x[query]()"
    let thing := Source.ofString "a=x[thing]()"
    let stmt : Tree := .node ⟨"expression_statement", true, false, false, ⟨0, 12⟩, none⟩
      [computedAssignment]
    ComputesMethod (computedCall variableIndex) (computedMember variableIndex) variableIndex ∧
    variableIndex.type = "identifier" ∧
    classify query (computedCall variableIndex) = some ⟨"x.query()", .database⟩ ∧
    classify thing (computedCall variableIndex) = none ∧
    (extract query stmt).map (·.kind) = [.assignment] ∧
    (extract thing stmt).map (·.kind) = [.genericAssignment] := by
  refine ⟨⟨rfl, rfl, rfl, rfl⟩, rfl, ?_, ?_, ?_, ?_⟩
  all_goals decide +kernel

end Flowchart.Platform
