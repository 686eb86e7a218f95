import Flowchart.Proofs.Flow.Occurrence
import Flowchart.Proofs.Script.Offsets

/-! Where the nodes of a parsed tree lie in the text, in bytes and in characters. -/
namespace Flowchart

/-- `r` is a stretch inside of `s`. -/
structure CharRange.Within (r s : CharRange) : Prop where
  start : s.start ≤ r.start
  ordered : r.start ≤ r.stop
  stop : r.stop ≤ s.stop

theorem CharRange.Within.trans {r s t : CharRange} (h : r.Within s) (h' : s.Within t) :
    r.Within t where
  start := Int.le_trans h'.start h.start
  ordered := h.ordered
  stop := Int.le_trans h.stop h'.stop

namespace Tree

/-- `t` ends where `u` starts or before that. -/
def Before (t u : Tree) : Prop :=
  t.span.stop ≤ u.span.start

instance (t u : Tree) : Decidable (t.Before u) :=
  inferInstanceAs (Decidable (t.span.stop ≤ u.span.start))

def armsOf (t : Tree) : List Tree :=
  (t.field? "consequence").toList ++ (t.field? "alternative").toList

def blocksOf (t : Tree) : List Tree :=
  (t.field? "body").toList ++ (t.field? "handler").toList ++ (t.field? "finalizer").toList

/-- A node lies in the text, and its children lie inside of it, one after the other. The arms of a
conditional and the blocks of a try statement come in the order of their roles. -/
structure IsPlaced (src : Source) (t : Tree) : Prop where
  start : 0 ≤ t.span.start
  ordered : t.span.start ≤ t.span.stop
  stop : t.span.stop ≤ src.bytes.length
  inside : ∀ c ∈ t.children, t.span.start ≤ c.span.start ∧ c.span.stop ≤ t.span.stop
  children : t.children.Pairwise Before
  arms : t.type = "if_statement" → t.armsOf.Pairwise Before
  blocks : t.type = "try_statement" → t.blocksOf.Pairwise Before

instance (src : Source) (t : Tree) : Decidable (t.IsPlaced src) :=
  decidable_of_iff (0 ≤ t.span.start ∧ t.span.start ≤ t.span.stop ∧
      t.span.stop ≤ src.bytes.length ∧
      (∀ c ∈ t.children, t.span.start ≤ c.span.start ∧ c.span.stop ≤ t.span.stop) ∧
      t.children.Pairwise Before ∧ (t.type = "if_statement" → t.armsOf.Pairwise Before) ∧
      (t.type = "try_statement" → t.blocksOf.Pairwise Before))
    ⟨fun ⟨hs, ho, he, hi, hc, ha, hb⟩ => ⟨hs, ho, he, hi, hc, ha, hb⟩,
      fun h => ⟨h.start, h.ordered, h.stop, h.inside, h.children, h.arms, h.blocks⟩⟩

/-- What a parser guarantees about the spans in the tree of a text. -/
def IsParsed (src : Source) (root : Tree) : Prop :=
  ∀ t ∈ root.preorder, t.IsPlaced src

instance (src : Source) (root : Tree) : Decidable (root.IsParsed src) :=
  inferInstanceAs (Decidable (∀ t ∈ root.preorder, t.IsPlaced src))

theorem mem_preorder_self (t : Tree) : t ∈ t.preorder := by
  cases t
  exact List.mem_cons_self

theorem mem_preorderAll {c : Tree} {cs : List Tree} (h : c ∈ cs) : c ∈ preorderAll cs := by
  induction h with
  | head => exact List.mem_append_left _ c.mem_preorder_self
  | tail d _ ih => exact List.mem_append_right _ ih

mutual

theorem child_mem_preorder {t c : Tree} (hc : c ∈ t.children) :
    (root : Tree) → t ∈ root.preorder → c ∈ root.preorder
  | node m cs => fun ht => by
    rw [preorder] at ht ⊢
    rcases List.mem_cons.mp ht with rfl | ht
    · exact List.mem_cons_of_mem _ (mem_preorderAll hc)
    · exact List.mem_cons_of_mem _ (child_mem_preorderAll hc cs ht)

theorem child_mem_preorderAll {t c : Tree} (hc : c ∈ t.children) :
    (cs : List Tree) → t ∈ preorderAll cs → c ∈ preorderAll cs
  | [] => fun ht => absurd ht List.not_mem_nil
  | d :: ds => fun ht => by
    rw [preorderAll] at ht ⊢
    rcases List.mem_append.mp ht with ht | ht
    · exact List.mem_append_left _ (child_mem_preorder hc d ht)
    · exact List.mem_append_right _ (child_mem_preorderAll hc ds ht)

end

/-- `c` is a node of the tree, and its characters are inside of those of `t`. -/
structure LiesIn (src : Source) (root c t : Tree) : Prop where
  mem : c ∈ root.preorder
  within : (src.range c.span).Within (src.range t.span)

section
variable {src : Source} {root c t u : Tree}

theorem IsParsed.range_stop_le (h : root.IsParsed src) (ht : t ∈ root.preorder)
    (htu : t.Before u) : (src.range t.span).stop ≤ (src.range u.span).start :=
  src.charOffset_mono (Int.le_trans (h t ht).start (h t ht).ordered) htu

theorem IsParsed.liesIn_self (h : root.IsParsed src) (ht : t ∈ root.preorder) :
    LiesIn src root t t where
  mem := ht
  within := ⟨Int.le_refl _, src.charOffset_mono (h t ht).start (h t ht).ordered, Int.le_refl _⟩

theorem LiesIn.trans (h : LiesIn src root c u) (h' : LiesIn src root u t) :
    LiesIn src root c t :=
  ⟨h.mem, h.within.trans h'.within⟩

variable (h : root.IsParsed src)
include h

theorem LiesIn.child (hu : LiesIn src root u t) (hc : c ∈ u.children) : LiesIn src root c t := by
  have hmem := child_mem_preorder hc root hu.mem
  obtain ⟨hstart, hstop⟩ := (h u hu.mem).inside c hc
  have hplace := h c hmem
  have hcu : (src.range c.span).Within (src.range u.span) :=
    ⟨src.charOffset_mono (h u hu.mem).start hstart, (h.liesIn_self hmem).within.ordered,
      src.charOffset_mono (Int.le_trans hplace.start hplace.ordered) hstop⟩
  exact ⟨hmem, hcu.trans hu.within⟩

theorem LiesIn.field? {name : String} (hu : LiesIn src root u t) (hc : u.field? name = some c) :
    LiesIn src root c t :=
  hu.child h (List.mem_of_find?_eq_some hc)

theorem LiesIn.firstStatement? (hu : LiesIn src root u t) (hc : u.firstStatement? = some c) :
    LiesIn src root c t :=
  hu.child h (List.mem_of_find?_eq_some hc)

theorem LiesIn.unwrap (hu : LiesIn src root u t) (hc : u.unwrap = some c) :
    LiesIn src root c t := by
  induction hn : u.size using Nat.strongRecOn generalizing u with
  | ind n ih =>
    subst hn
    rw [unwrap_eq] at hc
    split_ifs at hc
    · obtain ⟨s, hs, hc⟩ := Option.bind_eq_some_iff.mp hc
      exact ih s.size (size_lt_of_firstStatement? hs) (hu.firstStatement? h hs) hc rfl
    · exact Option.some.inj hc ▸ hu

end
end Tree
end Flowchart
