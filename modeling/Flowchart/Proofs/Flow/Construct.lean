import Flowchart.Flow.Statement

/-! Which type names make which constructs. -/
namespace Flowchart.Tree

theorem construct_of_isFunction {t : Tree} (h : t.isFunction) : t.construct = .function := by
  rw [construct, if_pos h]

/-- Every type name in the table decides the construct. -/
theorem construct_of_mem {t : Tree} {c : Construct} (h : (t.type, c) ∈ constructs) :
    t.construct = c := by
  have htable : ∀ x ∈ constructs, constructs.lookup x.1 = some x.2 ∧
      ["function_expression", "function", "arrow_function", "generator_function"].contains x.1 =
        false := by decide
  obtain ⟨hl, hf⟩ := htable _ h
  rw [construct, isFunction, hf, Bool.and_false, hl]
  rfl

/-- A function value need not be in the table, nor what is silent. -/
theorem mem_constructs {t : Tree} {c : Construct} (h : t.construct = c) (hf : t.isFunction = false)
    (hs : c ≠ .silent) : (t.type, c) ∈ constructs := by
  rw [construct, hf] at h
  cases hl : constructs.lookup t.type with
  | none => exact absurd (by simpa [hl] using h.symm) hs
  | some c' =>
    obtain rfl : c' = c := by simpa [hl] using h
    obtain ⟨l₁, l₂, he, -⟩ := List.lookup_eq_some_iff.mp hl
    rw [he]
    exact List.mem_append_right _ List.mem_cons_self

theorem isFunction_eq_false {t : Tree} (h : t.construct ≠ .function) : t.isFunction = false := by
  cases hfn : t.isFunction with
  | false => rfl
  | true => exact absurd (construct_of_isFunction hfn) h

theorem construct_eq_iff {t : Tree} {c : Construct} (hf : c ≠ .function) (hs : c ≠ .silent) :
    t.construct = c ↔ (t.type, c) ∈ constructs :=
  ⟨fun h => mem_constructs h (isFunction_eq_false (h ▸ hf)) hs, construct_of_mem⟩

theorem construct_eq_function_iff {t : Tree} : t.construct = .function ↔
    t.isFunction ∨ t.type ∈ ["function_declaration", "generator_function_declaration"] := by
  cases hf : t.isFunction with
  | true => simp [construct_of_isFunction hf]
  | false =>
    have hmem : t.construct = .function ↔ (t.type, .function) ∈ constructs :=
      ⟨fun h => mem_constructs h hf nofun, construct_of_mem⟩
    rw [hmem]
    simp [constructs]

theorem construct_eq_conditional_iff {t : Tree} :
    t.construct = .conditional ↔ t.type = "if_statement" := by
  simp [construct_eq_iff, constructs]

theorem construct_eq_switch_iff {t : Tree} :
    t.construct = .switch ↔ t.type = "switch_statement" := by
  simp [construct_eq_iff, constructs]

theorem construct_eq_tryBlock_iff {t : Tree} :
    t.construct = .tryBlock ↔ t.type = "try_statement" := by
  simp [construct_eq_iff, constructs]

theorem construct_eq_expression_iff {t : Tree} :
    t.construct = .expression ↔ t.type = "expression_statement" := by
  simp [construct_eq_iff, constructs]

end Flowchart.Tree
