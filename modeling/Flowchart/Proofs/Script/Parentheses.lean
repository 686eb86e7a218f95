import Flowchart.Proofs.Flow.Occurrence

/-! Parentheses around a node of a syntax tree, and another node in the place of one. -/
namespace Flowchart.Tree

/-- The node in another role in its parent. -/
def inRole (role : Option String) (t : Tree) : Tree :=
  node { t.mark with field := role } t.children

/-- What takes the place of `c` if this is in the role `name`. -/
def inPlaceOf? (u : Tree) (name : String) (c : Tree) : Option Tree :=
  if c.mark.field = some name then some (u.inRole (some name)) else none

/-- The tree with `u` in the place of its first child in the role `name`. -/
def replace (t : Tree) (name : String) (u : Tree) : Tree :=
  node t.mark (t.children.replaceF (u.inPlaceOf? name))

/-- The second tree is `t` with any number of parentheses around it. Comments may stand beside it
in them, and its role need not be the one of the outermost parentheses. -/
inductive WrappedIn (t : Tree) : Tree → Prop where
  | bare (role : Option String) : WrappedIn t (t.inRole role)
  | around {p q : Tree} : p.type = parenthesized → p.firstStatement? = some q → WrappedIn t q →
    WrappedIn t p

/-- Without the parentheses around them the two are one node, but for its role. -/
def SameInside (t u : Tree) : Prop :=
  t.unwrap.map (inRole none) = u.unwrap.map (inRole none)

section
variable (role : Option String) (t : Tree)

@[simp] theorem type_inRole : (t.inRole role).type = t.type := rfl

@[simp] theorem firstStatement?_inRole :
    (t.inRole role).firstStatement? = t.firstStatement? := rfl

end

section
variable {t u p c : Tree} {name : String}

theorem WrappedIn.inRole (h : t.WrappedIn p) (role : Option String) :
    t.WrappedIn (p.inRole role) := by
  cases h with
  | bare role' => exact .bare role
  | around htype hfirst hq => exact .around htype hfirst hq

theorem sameInside_inRole (role : Option String) (t : Tree) : SameInside t (t.inRole role) := by
  rw [SameInside, unwrap_eq, unwrap_eq (t.inRole role), type_inRole, firstStatement?_inRole]
  split_ifs
  · rfl
  · rfl

theorem WrappedIn.sameInside (h : t.WrappedIn p) : SameInside t p := by
  induction h with
  | bare role => exact sameInside_inRole role t
  | @around p q htype hfirst hq ih =>
    rw [SameInside, unwrap_eq p, if_pos htype, hfirst]
    exact ih

/-- What does not ask for the role of a node is the same for both. -/
theorem SameInside.map_unwrap {α : Type} {f : Tree → α} (h : SameInside t u)
    (hf : ∀ v : Tree, f (v.inRole none) = f v) : t.unwrap.map f = u.unwrap.map f := by
  have hmap (v : Tree) : v.unwrap.map f = (v.unwrap.map (Tree.inRole none)).map f := by
    rw [Option.map_map]
    exact congrArg (v.unwrap.map ·) (funext fun w => (hf w).symm)
  rw [hmap t, hmap u, h]

theorem SameInside.bind_unwrap {α : Type} {f : Tree → Option α} (h : SameInside t u)
    (hf : ∀ v : Tree, f (v.inRole none) = f v) : t.unwrap.bind f = u.unwrap.bind f := by
  have hbind (v : Tree) : v.unwrap.bind f = (v.unwrap.map f).bind id := by
    rw [Option.bind_map]
    rfl
  rw [hbind t, hbind u, h.map_unwrap hf]

/-- Nothing is left to take parentheses away from. -/
theorem type_ne_of_unwrap (h : t.unwrap = some u) : u.type ≠ parenthesized := by
  induction hn : t.size using Nat.strongRecOn generalizing t with
  | ind n ih =>
    subst hn
    rw [unwrap_eq] at h
    split_ifs at h with htype
    · obtain ⟨s, hs, hu⟩ := Option.bind_eq_some_iff.mp h
      exact ih s.size (size_lt_of_firstStatement? hs) hu rfl
    · exact Option.some.inj h ▸ htype

theorem unwrap_eq_self (h : t.type ≠ parenthesized) : t.unwrap = some t := by
  rw [unwrap_eq, if_neg h]

/-! Replacing a child. -/

@[simp] theorem type_replace : (t.replace name u).type = t.type := rfl

@[simp] theorem span_replace : (t.replace name u).span = t.span := rfl

/-- What stood inside of parentheses has none around it after a replacement either. -/
theorem unwrap_replace (h : t.unwrap = some c) (name : String) (u : Tree) :
    (c.replace name u).unwrap = some (c.replace name u) := by
  apply unwrap_eq_self
  rw [type_replace]
  exact type_ne_of_unwrap h

private theorem replaced_split (h : t.field? name = some c) (u : Tree) :
    ∃ before d after, t.children = before ++ d :: after ∧ d.mark.field = some name ∧
      (∀ b ∈ before, b.mark.field ≠ some name) ∧
      (t.replace name u).children = before ++ u.inRole (some name) :: after := by
  have hc : c.mark.field = some name := by simpa using List.find?_some h
  obtain ⟨d, u', before, after, hbefore, hd, hsplit, hreplaced⟩ :=
    List.exists_of_replaceF (p := u.inPlaceOf? name) (List.mem_of_find?_eq_some h) (if_pos hc)
  obtain ⟨hrole, hu⟩ := Option.ite_none_right_eq_some.mp hd
  obtain rfl := Option.some.inj hu
  have hother : ∀ b ∈ before, b.mark.field ≠ some name := by
    intro b hb hsame
    have hnone := hbefore b hb
    rw [inPlaceOf?, if_pos hsame] at hnone
    cases hnone
  exact ⟨before, d, after, hsplit, hrole, hother, hreplaced⟩

theorem field?_replace (h : t.field? name = some c) (u : Tree) :
    (t.replace name u).field? name = some (u.inRole (some name)) := by
  obtain ⟨before, d, after, -, -, hbefore, hreplaced⟩ := replaced_split h u
  rw [field?, hreplaced, List.find?_append,
    List.find?_eq_none.mpr fun b hb => by simpa using hbefore b hb, Option.none_or,
    List.find?_cons_of_pos (by simp [inRole, mark])]

/-- The other roles keep their nodes. -/
theorem field?_replace_of_ne {other : String} (h : t.field? name = some c) (u : Tree)
    (hne : other ≠ name) : (t.replace name u).field? other = t.field? other := by
  obtain ⟨before, d, after, hsplit, hd, -, hreplaced⟩ := replaced_split h u
  rw [field?, field?, hreplaced, hsplit, List.find?_append, List.find?_append,
    List.find?_cons_of_neg (by simp [inRole, mark, Ne.symm hne]),
    List.find?_cons_of_neg (by simp [hd, Ne.symm hne])]

end
end Flowchart.Tree
