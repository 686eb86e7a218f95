import Flowchart.Diagram.Layout
import Mathlib.Algebra.GroupWithZero.Nat
import Mathlib.Algebra.Ring.Int.Defs
import Mathlib.Data.List.Basic

/-! Boxes: nodes with all that is drawn below them. Their rows and positions are said by recursion;
each box stands below the boxes before it in its column. -/
namespace Flowchart

/-- A node with what is drawn below it: columns of boxes, each at a distance to its right. -/
inductive Box where
  | node (id : String) (columns : List (Int × List Box))
  deriving Repr

namespace Box

mutual

/-- The rows that a box takes with all below it: its own and those of its tallest column. -/
def rows : Box → Nat
  | node _ columns => 1 + tallest columns

def tallest : List (Int × List Box) → Nat
  | [] => 0
  | (_, boxes) :: columns => max (stacked boxes) (tallest columns)

/-- The rows of a column. -/
def stacked : List Box → Nat
  | [] => 0
  | b :: bs => b.rows + stacked bs

end

mutual

/-- The positions of a box and of all below it. What is drawn later in a row or a column comes
first. -/
def place (p : Position) : Box → List (String × Position)
  | node id columns => (id, p) :: placeColumns ⟨p.x, p.y + Layout.rowHeight⟩ columns

/-- The positions in columns that begin at the height of `top`. -/
def placeColumns (top : Position) : List (Int × List Box) → List (String × Position)
  | [] => []
  | (shift, boxes) :: columns =>
    placeColumns top columns ++ placeStack ⟨top.x + shift, top.y⟩ boxes

/-- The positions in a column whose first box stands at `top`. -/
def placeStack (top : Position) : List Box → List (String × Position)
  | [] => []
  | b :: bs => placeStack ⟨top.x, top.y + Layout.rowHeight * b.rows⟩ bs ++ b.place top

end

/-- The positions of roots, one below the other with a gap between them. -/
def placeRoots (top : Position) : List Box → List (String × Position)
  | [] => []
  | b :: bs => b.place top ++ placeRoots ⟨top.x, top.y + Layout.rowHeight * b.rows + Layout.gap⟩ bs

theorem stacked_eq_sum (bs : List Box) : stacked bs = (bs.map rows).sum := by
  induction bs with
  | nil => rfl
  | cons b bs ih => rw [stacked, ih, List.map_cons, List.sum_cons]

theorem tallest_eq_foldr (columns : List (Int × List Box)) :
    tallest columns = (columns.map fun c => stacked c.2).foldr max 0 := by
  induction columns with
  | nil => rfl
  | cons c columns ih => rw [tallest, ih, List.map_cons, List.foldr_cons]

variable {e : String × Position}

theorem mem_placeStack {top : Position} {bs : List Box} :
    e ∈ placeStack top bs ↔ ∃ before b after, bs = before ++ b :: after ∧
      e ∈ b.place ⟨top.x, top.y + Layout.rowHeight * stacked before⟩ := by
  induction bs generalizing top with
  | nil => simp [placeStack]
  | cons b bs ih =>
    -- The boxes after the first stand below it, by as many rows as it takes.
    have hshift (before : List Box) :
        (top.y + Layout.rowHeight * b.rows) + Layout.rowHeight * stacked before =
          top.y + Layout.rowHeight * stacked (b :: before) := by
      rw [stacked, Int.natCast_add, Int.mul_add, Int.add_assoc]
    rw [placeStack, List.mem_append, ih]
    constructor
    · rintro (⟨before, b', after, rfl, he⟩ | he)
      · exact ⟨b :: before, b', after, rfl, by rwa [← hshift]⟩
      · exact ⟨[], b, bs, rfl, by simpa [stacked] using he⟩
    · rintro ⟨before, b', after, hbs, he⟩
      cases before with
      | nil =>
        obtain ⟨rfl, rfl⟩ := List.cons_eq_cons.mp hbs
        exact .inr (by simpa [stacked] using he)
      | cons c before =>
        obtain ⟨rfl, rfl⟩ := List.cons_eq_cons.mp hbs
        exact .inl ⟨before, b', after, rfl, by rwa [hshift]⟩

theorem mem_placeColumns {top : Position} {columns : List (Int × List Box)} :
    e ∈ placeColumns top columns ↔
      ∃ c ∈ columns, e ∈ placeStack ⟨top.x + c.1, top.y⟩ c.2 := by
  induction columns with
  | nil => simp [placeColumns]
  | cons c columns ih =>
    rw [placeColumns, List.mem_append, ih, List.exists_mem_cons_iff]
    exact or_comm

/-- A box stands at its own place, and the boxes of its columns stand below it. -/
theorem mem_place {p : Position} {id : String} {columns : List (Int × List Box)} :
    e ∈ (node id columns).place p ↔ e = (id, p) ∨
      ∃ shift before b after, (shift, before ++ b :: after) ∈ columns ∧
        e ∈ b.place ⟨p.x + shift, p.y + Layout.rowHeight + Layout.rowHeight * stacked before⟩ := by
  rw [place, List.mem_cons, mem_placeColumns]
  refine or_congr_right ?_
  constructor
  · rintro ⟨⟨shift, bs⟩, hc, he⟩
    obtain ⟨before, b, after, rfl, he⟩ := mem_placeStack.mp he
    exact ⟨shift, before, b, after, hc, he⟩
  · rintro ⟨shift, before, b, after, hc, he⟩
    exact ⟨_, hc, mem_placeStack.mpr ⟨before, b, after, rfl, he⟩⟩

/-- The height of some roots with the gaps between them and the next root. -/
def rootsHeight (bs : List Box) : Int :=
  (bs.map fun b => Layout.rowHeight * (b.rows : Int) + Layout.gap).sum

theorem mem_placeRoots {top : Position} {bs : List Box} :
    e ∈ placeRoots top bs ↔ ∃ before b after, bs = before ++ b :: after ∧
      e ∈ b.place ⟨top.x, top.y + rootsHeight before⟩ := by
  induction bs generalizing top with
  | nil => simp [placeRoots]
  | cons b bs ih =>
    have hshift (before : List Box) :
        (top.y + Layout.rowHeight * b.rows + Layout.gap) + rootsHeight before =
          top.y + rootsHeight (b :: before) := by
      rw [rootsHeight, rootsHeight, List.map_cons, List.sum_cons]
      simp only [Int.add_assoc]
    rw [placeRoots, List.mem_append, ih]
    constructor
    · rintro (he | ⟨before, b', after, rfl, he⟩)
      · exact ⟨[], b, bs, rfl, by simpa [rootsHeight] using he⟩
      · exact ⟨b :: before, b', after, rfl, by rwa [← hshift]⟩
    · rintro ⟨before, b', after, hbs, he⟩
      cases before with
      | nil =>
        obtain ⟨rfl, rfl⟩ := List.cons_eq_cons.mp hbs
        exact .inl (by simpa [rootsHeight] using he)
      | cons c before =>
        obtain ⟨rfl, rfl⟩ := List.cons_eq_cons.mp hbs
        exact .inr ⟨before, b', after, rfl, by rwa [hshift]⟩

end Box

namespace Layout

/-- The box of a node with what is below it, `depth` levels deep. -/
def box (nodes : List FlowNode) : Nat → String → Box
  | 0, id => .node id []
  | depth + 1, id =>
    .node id ((columns nodes id).map fun (shift, ids) => (shift, ids.map (box nodes depth)))

/-- The boxes of the roots. A way down without repetition has no more levels than there are
nodes. -/
def boxes (nodes : List FlowNode) : List Box :=
  (roots nodes).map (box nodes nodes.length)

end Layout
end Flowchart
