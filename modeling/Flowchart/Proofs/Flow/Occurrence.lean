import Flowchart.Proofs.Flow.OutlineEquation
import Mathlib.Data.List.Infix
import Mathlib.Data.List.Pairwise

/-! Nodes of a syntax tree together with where they stand in it. Equal nodes at different places
are told apart. -/
namespace Flowchart

/-- A node of a syntax tree and the child positions that lead to it from the root. -/
structure Occurrence where
  path : List Nat
  tree : Tree

namespace Occurrence

def children (p : Occurrence) : List Occurrence :=
  p.tree.children.mapIdx fun i c => ⟨p.path ++ [i], c⟩

def field? (p : Occurrence) (name : String) : Option Occurrence :=
  p.children.find? (·.tree.mark.field = some name)

def fields (p : Occurrence) (name : String) : List Occurrence :=
  p.children.filter (·.tree.mark.field = some name)

def statements (p : Occurrence) : List Occurrence :=
  p.children.filter (·.tree.isStatement)

def firstStatement? (p : Occurrence) : Option Occurrence :=
  p.children.find? (·.tree.isStatement)

theorem map_children (p : Occurrence) : p.children.map tree = p.tree.children :=
  List.ext_getElem (by simp [children]) (by simp [children])

theorem map_field? (p : Occurrence) (name : String) :
    (p.field? name).map tree = p.tree.field? name := by
  rw [Tree.field?, ← p.map_children, List.find?_map]
  rfl

theorem map_fields (p : Occurrence) (name : String) :
    (p.fields name).map tree = p.tree.fields name := by
  rw [Tree.fields, ← p.map_children, List.filter_map]
  rfl

theorem map_statements (p : Occurrence) : p.statements.map tree = p.tree.statements := by
  rw [Tree.statements, ← p.map_children, List.filter_map]
  rfl

theorem map_firstStatement? (p : Occurrence) :
    p.firstStatement?.map tree = p.tree.firstStatement? := by
  rw [Tree.firstStatement?, ← p.map_children, List.find?_map]
  rfl

/-- `q` is `p` or stands somewhere below it. -/
structure Below (p q : Occurrence) : Prop where
  path : p.path <+: q.path
  size : q.tree.size ≤ p.tree.size

/-- Neither place is on the way to the other one. -/
def Apart (p q : Occurrence) : Prop :=
  ¬ p.path <+: q.path ∧ ¬ q.path <+: p.path

/-- `q` stands in one of the children of `p`. -/
def Inside (p q : Occurrence) : Prop :=
  ∃ c ∈ p.children, Below c q

section
variable {p q r : Occurrence}

theorem below_refl (p : Occurrence) : Below p p :=
  ⟨List.prefix_refl _, Nat.le_refl _⟩

theorem Below.trans (h : Below p q) (h' : Below q r) : Below p r :=
  ⟨h.path.trans h'.path, Nat.le_trans h'.size h.size⟩

instance : Std.Symm Apart :=
  ⟨fun _ _ h => ⟨h.2, h.1⟩⟩

/-- Places below ones that are apart are apart. -/
theorem Apart.below {p' q' : Occurrence} (h : Apart p q) (hp : Below p p') (hq : Below q q') :
    Apart p' q' := by
  constructor
  · intro hpre
    rcases List.prefix_or_prefix_of_prefix (hp.path.trans hpre) hq.path with hpq | hqp
    · exact h.1 hpq
    · exact h.2 hqp
  · intro hpre
    rcases List.prefix_or_prefix_of_prefix hp.path (hq.path.trans hpre) with hpq | hqp
    · exact h.1 hpq
    · exact h.2 hqp

theorem path_of_mem_children (h : q ∈ p.children) : ∃ i, q.path = p.path ++ [i] := by
  obtain ⟨i, hi, rfl⟩ := List.mem_mapIdx.mp h
  exact ⟨i, rfl⟩

theorem inside_of_mem (h : q ∈ p.children) : Inside p q :=
  ⟨q, h, below_refl q⟩

theorem Inside.trans_below (h : Inside p q) (h' : Below q r) : Inside p r := by
  obtain ⟨c, hc, hcq⟩ := h
  exact ⟨c, hc, hcq.trans h'⟩

theorem Inside.size_lt (h : Inside p q) : q.tree.size < p.tree.size := by
  obtain ⟨c, hc, hcq⟩ := h
  have hlt : c.tree.size < p.tree.size :=
    Tree.size_lt_of_mem (p.map_children ▸ List.mem_map_of_mem hc)
  exact Nat.lt_of_le_of_lt hcq.size hlt

theorem Inside.below (h : Inside p q) : Below p q := by
  have hsize := h.size_lt
  obtain ⟨c, hc, hcq⟩ := h
  obtain ⟨i, hi⟩ := path_of_mem_children hc
  exact ⟨(hi ▸ List.prefix_append _ _ : p.path <+: c.path).trans hcq.path, Nat.le_of_lt hsize⟩

theorem Inside.path_ne (h : Inside p q) : p.path ≠ q.path := by
  obtain ⟨c, hc, hcq⟩ := h
  obtain ⟨i, hi⟩ := path_of_mem_children hc
  intro he
  have hle := hcq.path.length_le
  rw [hi, ← he, List.length_append, List.length_singleton] at hle
  omega

theorem inside_of_field? {name : String} (h : p.field? name = some q) : Inside p q :=
  inside_of_mem (List.mem_of_find?_eq_some h)

theorem inside_of_firstStatement? (h : p.firstStatement? = some q) : Inside p q :=
  inside_of_mem (List.mem_of_find?_eq_some h)

theorem children_apart (p : Occurrence) : p.children.Pairwise Apart := by
  rw [List.pairwise_iff_getElem]
  intro i j hi hj hij
  have hne : i ≠ j := Nat.ne_of_lt hij
  simp [children, Apart, List.prefix_append_right_inj, List.cons_prefix_cons, hne, hne.symm]

/-- What stands in different fields is apart. -/
theorem apart_of_field? {f g : String} (hne : f ≠ g) (hq : p.field? f = some q)
    (hr : p.field? g = some r) : Apart q r := by
  refine p.children_apart.forall (List.mem_of_find?_eq_some hq)
    (List.mem_of_find?_eq_some hr) ?_
  rintro rfl
  have hf : q.tree.mark.field = some f := by simpa using List.find?_some hq
  have hg : q.tree.mark.field = some g := by simpa using List.find?_some hr
  exact hne (Option.some.inj (hf.symm.trans hg))

end

/-- The expression inside any number of parentheses; empty parentheses hold none. -/
def unwrap (p : Occurrence) : Option Occurrence :=
  if p.tree.type = Tree.parenthesized then
    match _h : p.firstStatement? with
    | none => none
    | some q => q.unwrap
  else some p
termination_by p.tree.size
decreasing_by exact (inside_of_firstStatement? _h).size_lt

end Occurrence

namespace Tree

theorem unwrapFirst_eq (cs : List Tree) :
    unwrapFirst cs = (cs.find? (·.isStatement)).bind unwrap := by
  induction cs with
  | nil => rfl
  | cons c cs ih =>
    rw [unwrapFirst, List.find?_cons]
    cases h : c.isStatement with
    | true => rfl
    | false => simpa using ih

theorem unwrap_eq (t : Tree) :
    t.unwrap = if t.type = parenthesized then t.firstStatement?.bind unwrap else some t := by
  cases t with
  | node m cs =>
    rw [unwrap, unwrapFirst_eq]
    rfl

end Tree

namespace Occurrence

theorem map_unwrap (p : Occurrence) : p.unwrap.map tree = p.tree.unwrap := by
  fun_induction unwrap p with
  | case1 p hp h => rw [Tree.unwrap_eq, if_pos hp, ← map_firstStatement?, h]; rfl
  | case2 p hp q h ih => rw [Tree.unwrap_eq, if_pos hp, ← map_firstStatement?, h, ih]; rfl
  | case3 p hp => rw [Tree.unwrap_eq, if_neg hp]; rfl

theorem below_of_unwrap {p : Occurrence} : ∀ {q : Occurrence}, p.unwrap = some q → Below p q := by
  fun_induction unwrap p with
  | case1 p hp h => exact nofun
  | case2 p hp r h ih =>
    intro q hq
    exact (inside_of_firstStatement? h).below.trans (ih hq)
  | case3 p hp =>
    rintro q ⟨⟩
    exact below_refl p

end Occurrence
end Flowchart
