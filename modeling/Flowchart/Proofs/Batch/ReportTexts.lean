import Flowchart.Report

/-! A report can be made just when every text in it can be held by a document. -/
namespace Flowchart.Report

/-- A document can hold the text. -/
def IsHeld (hold : String → Except String String) (s : String) : Prop :=
  ∃ t, hold s = .ok t

/-- The heading of a function, and the description and the snippet that it may have. -/
def textsOfFunction (descriptions : List (String × String)) (index : Nat) (fn : FlowNode) :
    List String :=
  (toString index ++ ". " ++ fn.label ++ " (line " ++ toString fn.loc.start.line ++ ")") ::
    ((descriptions.lookup fn.id).toList ++ fn.snippet.toList).filter (· ≠ "")

/-- The texts about functions that are numbered from `index` on. -/
def textsOfFunctions (descriptions : List (String × String)) : Nat → List FlowNode → List String
  | _, [] => []
  | index, fn :: rest =>
    textsOfFunction descriptions index fn ++ textsOfFunctions descriptions (index + 1) rest

/-- The texts of a report that come from the script and its descriptions. -/
def texts (name : String) (nodes : List FlowNode) (mermaid : String)
    (descriptions : List (String × String)) : List String :=
  name :: textsOfFunctions descriptions 1 (nodes.filter (·.kind = .function)) ++ [mermaid]

/-- A step that is followed by another one gives a result just when both do. -/
private theorem exists_bind_eq_ok {α β : Type} {x : Except String α}
    {f : α → Except String β} {p : Prop} (hf : ∀ a, (∃ b, f a = .ok b) ↔ p) :
    (∃ b, x >>= f = .ok b) ↔ (∃ a, x = .ok a) ∧ p := by
  cases x with
  | error e => simp [bind, Except.bind]
  | ok a => exact (hf a).trans (and_iff_right ⟨a, rfl⟩).symm

private theorem exists_pure_eq_ok {α : Type} {a : α} :
    (∃ b, (pure a : Except String α) = .ok b) ↔ True :=
  iff_true_intro ⟨a, rfl⟩

private theorem exists_map_eq_ok {α β : Type} {x : Except String α} {f : α → β} :
    (∃ b, x.map f = .ok b) ↔ ∃ a, x = .ok a := by
  cases x with
  | error e => simp [Except.map]
  | ok a => exact ⟨fun _ => ⟨a, rfl⟩, fun _ => ⟨f a, rfl⟩⟩

section

variable {hold : String → Except String String}

theorem exists_heading_iff {level : Nat} {s : String} :
    (∃ b, heading hold level s = .ok b) ↔ IsHeld hold s :=
  exists_map_eq_ok

theorem exists_paragraph?_iff {text : Option String} :
    (∃ bs, paragraph? hold text = .ok bs) ↔ ∀ s ∈ text.toList.filter (· ≠ ""), IsHeld hold s := by
  cases text with
  | none => exact ⟨fun _ => by simp, fun _ => ⟨[], rfl⟩⟩
  | some s =>
    rw [paragraph?, Option.toList_some]
    split
    · rename_i hs
      exact ⟨fun _ => by simp [hs], fun _ => ⟨[], rfl⟩⟩
    · rename_i hs
      rw [List.filter_cons_of_pos (by simpa using hs), List.filter_nil, List.forall_mem_singleton]
      exact exists_map_eq_ok

theorem exists_functionBlocks_iff {descriptions : List (String × String)} {index : Nat}
    {functions : List FlowNode} :
    (∃ bs, functionBlocks hold descriptions index functions = .ok bs) ↔
      ∀ s ∈ textsOfFunctions descriptions index functions, IsHeld hold s := by
  induction functions generalizing index with
  | nil => exact ⟨fun _ => by simp [textsOfFunctions], fun _ => ⟨[], rfl⟩⟩
  | cons fn rest ih =>
    rw [functionBlocks, exists_bind_eq_ok fun _ => exists_bind_eq_ok fun _ =>
      exists_bind_eq_ok fun _ => exists_bind_eq_ok fun _ => exists_pure_eq_ok]
    rw [exists_heading_iff, exists_paragraph?_iff, exists_paragraph?_iff, ih]
    simp only [textsOfFunctions, textsOfFunction, List.cons_append, List.forall_mem_cons,
      List.forall_mem_append, List.filter_append, and_true, and_assoc]

theorem exists_functionSection_iff {descriptions : List (String × String)}
    {nodes : List FlowNode} :
    (∃ bs, functionSection hold descriptions nodes = .ok bs) ↔
      ∀ s ∈ textsOfFunctions descriptions 1 (nodes.filter (·.kind = .function)),
        IsHeld hold s := by
  rw [functionSection]
  split
  · rename_i h
    rw [h]
    exact ⟨fun _ => by simp [textsOfFunctions], fun _ => ⟨[], rfl⟩⟩
  · rw [exists_bind_eq_ok fun _ => exists_pure_eq_ok, exists_functionBlocks_iff, and_true]

/-- A report can be made just when a document can hold each of its texts. -/
theorem exists_blocks_iff (stats : Stats) {name : String} {nodes : List FlowNode}
    {mermaid : String} {descriptions : List (String × String)} :
    (∃ bs, blocks hold name nodes stats mermaid descriptions = .ok bs) ↔
      ∀ s ∈ texts name nodes mermaid descriptions, IsHeld hold s := by
  rw [blocks, exists_bind_eq_ok fun _ => exists_bind_eq_ok fun _ => exists_bind_eq_ok fun _ =>
    exists_pure_eq_ok]
  rw [exists_heading_iff, exists_functionSection_iff, and_true]
  simp only [texts, List.cons_append, List.forall_mem_cons, List.forall_mem_append,
    List.not_mem_nil, false_implies, implies_true, and_true, IsHeld]

end

end Flowchart.Report
