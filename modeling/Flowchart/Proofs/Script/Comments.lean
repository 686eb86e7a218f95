import Flowchart.Platform.Call
import Flowchart.Proofs.Flow.Occurrence

/-! Syntax trees without their comments. Nothing that is asked about a tree tells the two apart,
and deleting some comments leaves the tree without comments as it was. -/
namespace Flowchart

namespace Mark

/-- A comment that plays no role in its parent. -/
def isRemark (m : Mark) : Bool :=
  m.type = "comment" && m.field.isNone

/-- Nodes of these types tell something by what their first child is. -/
def readsFirst (m : Mark) : Bool :=
  ["lexical_declaration", "variable_declaration", "update_expression"].contains m.type

/-- A question about nodes that no remark answers. -/
def Ignores (p : Mark → Bool) : Prop :=
  ∀ m : Mark, m.isRemark → p m = false

theorem ignores_field (name : String) : Ignores fun m => decide (m.field = some name) := by
  intro m hm
  simp only [isRemark, Bool.and_eq_true, Option.isNone_iff_eq_none] at hm
  simp [hm.2]

theorem ignores_statement : Ignores fun m => m.named && decide (m.type ≠ "comment") := by
  intro m hm
  simp only [isRemark, Bool.and_eq_true, decide_eq_true_eq] at hm
  simp [hm.1]

theorem ignores_operator {choices : List String} (h : "comment" ∉ choices) :
    Ignores fun m => !m.named && choices.contains m.type := by
  intro m hm
  simp only [isRemark, Bool.and_eq_true, decide_eq_true_eq] at hm
  simp [hm.1, h]

theorem ignores_named {type : String} (h : type ≠ "comment") :
    Ignores fun m => m.named && decide (m.type = type) := by
  intro m hm
  simp only [isRemark, Bool.and_eq_true, decide_eq_true_eq] at hm
  simp [hm.1, h.symm]

end Mark

namespace Tree

/-- The node at a path of child positions. -/
def at? : List Nat → Tree → Option Tree
  | [], t => some t
  | i :: path, t => t.children[i]?.bind (at? path)

mutual

/-- The tree without the nodes whose paths `drop` holds of and without what is below them. The root
stays. -/
def without (drop : List Nat → Bool) : Tree → Tree
  | node m cs => node m (withoutFrom drop 0 cs)

def withoutFrom (drop : List Nat → Bool) (i : Nat) : List Tree → List Tree
  | [] => []
  | c :: cs =>
    if drop [i] then withoutFrom drop (i + 1) cs
    else c.without (fun path => drop (i :: path)) :: withoutFrom drop (i + 1) cs

end

/-- All nodes that `drop` holds of are remarks, and none of them is a first child that its parent
tells something by. -/
def OnlyRemarks (drop : List Nat → Bool) (t : Tree) : Prop :=
  ∀ path i u c, t.at? path = some u → u.children[i]? = some c → drop (path ++ [i]) →
    c.mark.isRemark ∧ ¬ (i = 0 ∧ u.mark.readsFirst)

mutual

/-- The tree without its remarks, but for the first children that tell something. -/
def uncommented : Tree → Tree
  | node m cs => node m (uncommentedAll m.readsFirst cs)

/-- With `keepFirst` the first node stays even if it is a remark. -/
def uncommentedAll (keepFirst : Bool) : List Tree → List Tree
  | [] => []
  | c :: cs =>
    if c.mark.isRemark && !keepFirst then uncommentedAll false cs
    else c.uncommented :: uncommentedAll false cs

end

/-! Deleting remarks. -/

theorem OnlyRemarks.child {drop : List Nat → Bool} {t c : Tree} {i : Nat} (h : OnlyRemarks drop t)
    (hc : t.children[i]? = some c) : OnlyRemarks (fun path => drop (i :: path)) c := by
  intro path j u d hu hd hdrop
  refine h (i :: path) j u d ?_ hd hdrop
  rw [at?, hc]
  exact hu

@[simp] theorem mark_without (drop : List Nat → Bool) (t : Tree) :
    (t.without drop).mark = t.mark := by
  cases t
  rfl

mutual

/-- A tree from which remarks are deleted has the same rest without remarks. -/
theorem uncommented_without : (t : Tree) → (drop : List Nat → Bool) → OnlyRemarks drop t →
    (t.without drop).uncommented = t.uncommented
  | node m cs => fun drop h => by
    rw [without, uncommented, uncommented, uncommentedAll_withoutFrom cs drop 0]
    · intro j c hc hdrop
      rw [Nat.zero_add] at hdrop
      have hc' := h [] j (node m cs) c rfl hc hdrop
      exact ⟨hc'.1, fun hm => hc'.2 hm.symm⟩
    · intro j c hc
      rw [Nat.zero_add]
      exact h.child hc

/-- The nodes stand from position `i` on. -/
theorem uncommentedAll_withoutFrom : (cs : List Tree) → (drop : List Nat → Bool) → (i : Nat) →
    {keepFirst : Bool} →
    (∀ j c, cs[j]? = some c → drop [i + j] → c.mark.isRemark ∧ ¬ (keepFirst ∧ j = 0)) →
    (∀ j c, cs[j]? = some c → OnlyRemarks (fun path => drop ((i + j) :: path)) c) →
    uncommentedAll keepFirst (withoutFrom drop i cs) = uncommentedAll keepFirst cs
  | [] => fun _ _ _ _ _ => rfl
  | c :: cs => fun drop i keepFirst hdrop hbelow => by
    have htail : uncommentedAll false (withoutFrom drop (i + 1) cs) = uncommentedAll false cs := by
      refine uncommentedAll_withoutFrom cs drop (i + 1) ?_ ?_
      · intro j d hd hj
        rw [Nat.add_right_comm] at hj
        exact ⟨(hdrop (j + 1) d hd hj).1, nofun⟩
      · intro j d hd
        rw [Nat.add_right_comm]
        exact hbelow (j + 1) d hd
    rw [withoutFrom]
    split_ifs with hi
    · obtain ⟨hc, hkeep⟩ := hdrop 0 c rfl hi
      obtain rfl : keepFirst = false := by simpa using hkeep
      rw [htail, uncommentedAll, hc]
      rfl
    · rw [uncommentedAll, uncommentedAll, mark_without, htail,
        uncommented_without c (fun path => drop (i :: path)) (hbelow 0 c rfl)]

end

/-! Questions about the children that no remark answers. -/

@[simp] theorem mark_uncommented (t : Tree) : t.uncommented.mark = t.mark := by
  cases t
  rfl

theorem children_uncommented (t : Tree) :
    t.uncommented.children = uncommentedAll t.mark.readsFirst t.children := by
  cases t
  rfl

theorem filter_uncommentedAll {p : Mark → Bool} (hp : Mark.Ignores p) (keepFirst : Bool)
    (cs : List Tree) :
    (uncommentedAll keepFirst cs).filter (p ·.mark) =
      (cs.filter (p ·.mark)).map uncommented := by
  induction cs generalizing keepFirst with
  | nil => rfl
  | cons c cs ih =>
    rw [uncommentedAll]
    split_ifs with hc
    · have hc' : p c.mark = false := hp _ (Bool.and_eq_true_iff.mp hc).1
      rw [ih, List.filter_cons_of_neg (by simp [hc'])]
    · cases hc' : p c.mark with
      | true =>
        rw [List.filter_cons_of_pos (by simp [hc']), List.filter_cons_of_pos (by simp [hc']), ih,
          List.map_cons]
      | false =>
        rw [List.filter_cons_of_neg (by simp [hc']), List.filter_cons_of_neg (by simp [hc']), ih]

theorem filter_children_uncommented {p : Mark → Bool} (hp : Mark.Ignores p) (t : Tree) :
    t.uncommented.children.filter (p ·.mark) = (t.children.filter (p ·.mark)).map uncommented := by
  rw [children_uncommented, filter_uncommentedAll hp]

theorem find?_children_uncommented {p : Mark → Bool} (hp : Mark.Ignores p) (t : Tree) :
    t.uncommented.children.find? (p ·.mark) = (t.children.find? (p ·.mark)).map uncommented := by
  rw [← List.head?_filter, filter_children_uncommented hp, List.head?_map, List.head?_filter]

theorem head?_children_uncommented {t : Tree} (h : t.mark.readsFirst) :
    t.uncommented.children.head? = t.children.head?.map uncommented := by
  rw [children_uncommented, h]
  cases t.children with
  | nil => rfl
  | cons c cs => rw [uncommentedAll, if_neg (by simp)]; rfl

section
variable (t : Tree)

@[simp] theorem type_uncommented : t.uncommented.type = t.type :=
  congrArg Mark.type t.mark_uncommented

@[simp] theorem named_uncommented : t.uncommented.named = t.named :=
  congrArg Mark.named t.mark_uncommented

@[simp] theorem span_uncommented : t.uncommented.span = t.span :=
  congrArg Mark.span t.mark_uncommented

@[simp] theorem isStatement_uncommented : t.uncommented.isStatement = t.isStatement := by
  rw [isStatement, isStatement, named_uncommented, type_uncommented]

@[simp] theorem isFunction_uncommented : t.uncommented.isFunction = t.isFunction := by
  rw [isFunction, isFunction, named_uncommented, type_uncommented]

@[simp] theorem field?_uncommented (name : String) :
    t.uncommented.field? name = (t.field? name).map uncommented :=
  find?_children_uncommented (Mark.ignores_field name) t

@[simp] theorem fields_uncommented (name : String) :
    t.uncommented.fields name = (t.fields name).map uncommented :=
  filter_children_uncommented (Mark.ignores_field name) t

@[simp] theorem statements_uncommented : t.uncommented.statements = t.statements.map uncommented :=
  filter_children_uncommented Mark.ignores_statement t

@[simp] theorem firstStatement?_uncommented :
    t.uncommented.firstStatement? = t.firstStatement?.map uncommented :=
  find?_children_uncommented Mark.ignores_statement t

theorem operator?_uncommented (choices : List String) (h : "comment" ∉ choices) :
    t.uncommented.operator? choices = t.operator? choices := by
  have hfind := find?_children_uncommented (Mark.ignores_operator h) t
  rw [operator?, operator?, show t.uncommented.children.find?
    (fun c => !c.named && choices.contains c.type) = _ from hfind, Option.map_map]
  simp only [Function.comp_def, type_uncommented]
  rfl

/-- The named children of one type are told by their marks. -/
theorem namedChildren_filter_uncommented (type : String) (h : type ≠ "comment") :
    t.uncommented.namedChildren.filter (·.type = type) =
      (t.namedChildren.filter (·.type = type)).map uncommented := by
  have hfilter (u : Tree) : u.namedChildren.filter (·.type = type) =
      u.children.filter fun c => c.named && decide (c.type = type) := by
    simp only [namedChildren, List.filter_filter, Bool.and_comm]
  rw [hfilter, hfilter]
  exact filter_children_uncommented (Mark.ignores_named h) t

end

@[simp] theorem unwrap_uncommented (t : Tree) :
    t.uncommented.unwrap = t.unwrap.map uncommented := by
  induction hn : t.size using Nat.strongRecOn generalizing t with
  | ind n ih =>
    subst hn
    rw [unwrap_eq, unwrap_eq t, type_uncommented, firstStatement?_uncommented]
    split_ifs
    · cases hs : t.firstStatement? with
      | none => rfl
      | some s => exact ih s.size (size_lt_of_firstStatement? hs) s rfl
    · rfl

end Tree

/-! Calls. -/

namespace Platform
open Flowchart.Tree

variable (src : Source)

/-- An optional expression, without parentheses around it. -/
theorem bind_unwrap_uncommented (t : Option Tree) :
    (t.map uncommented).bind unwrap = (t.bind unwrap).map uncommented := by
  cases t with
  | none => rfl
  | some t => exact unwrap_uncommented t

@[simp] theorem propertyName_uncommented (t : Option Tree) :
    propertyName src (t.map uncommented) = propertyName src t := by
  cases t with
  | none => rfl
  | some t =>
    have hfragments := t.namedChildren_filter_uncommented "string_fragment" (by decide)
    simp only [Option.map_some, propertyName, type_uncommented, span_uncommented, hfragments,
      List.flatMap_map]

@[simp] theorem memberParts_uncommented (t : Tree) :
    memberParts src t.uncommented = (memberParts src t).map fun x => (x.1.uncommented, x.2) := by
  simp only [memberParts, type_uncommented, field?_uncommented, propertyName_uncommented,
    Option.map_map]
  split_ifs <;> simp [Function.comp_def]

@[simp] theorem identifierName?_uncommented (t : Tree) :
    identifierName? src t.uncommented = identifierName? src t := by
  simp only [identifierName?, type_uncommented, span_uncommented]

@[simp] theorem callee?_uncommented (t : Tree) :
    callee? t.uncommented = (callee? t).map uncommented := by
  simp only [callee?, field?_uncommented, bind_unwrap_uncommented]

@[simp] theorem receiverLabel_uncommented (t : Tree) :
    receiverLabel src t.uncommented = receiverLabel src t := by
  unfold receiverLabel
  rw [unwrap_uncommented]
  cases t.unwrap <;> simp

@[simp] theorem calleeLabel_uncommented (t : Tree) :
    calleeLabel src t.uncommented = calleeLabel src t := by
  unfold calleeLabel
  rw [memberParts_uncommented]
  cases memberParts src t <;> simp

@[simp] theorem callLabel_uncommented (t : Tree) :
    callLabel src t.uncommented = callLabel src t := by
  simp [callLabel, Option.elim_map, Function.comp_def]

@[simp] theorem methodCategory_uncommented (t : Tree) (method : String) :
    methodCategory src t.uncommented method = methodCategory src t method := by
  simp only [methodCategory, unwrap_uncommented, Option.bind_map, Function.comp_def,
    identifierName?_uncommented]

@[simp] theorem classify_uncommented (t : Tree) :
    classify src t.uncommented = classify src t := by
  unfold classify
  rw [callee?_uncommented]
  cases callee? t with
  | none => simp
  | some callee => cases h : memberParts src callee <;> simp [h]

@[simp] theorem isPlatformCall_uncommented (t : Tree) :
    isPlatformCall src t.uncommented = isPlatformCall src t := by
  rw [isPlatformCall, isPlatformCall, classify_uncommented]

@[simp] theorem constructor?_uncommented (t : Tree) :
    constructor? t.uncommented = (constructor? t).map uncommented := by
  simp only [constructor?, field?_uncommented, bind_unwrap_uncommented]

@[simp] theorem constructedClass_uncommented (t : Tree) :
    constructedClass src t.uncommented = constructedClass src t := by
  simp only [constructedClass, type_uncommented, span_uncommented, field?_uncommented,
    propertyName_uncommented, Option.bind_map, Function.comp_def, identifierName?_uncommented]

@[simp] theorem classOf_uncommented (t : Tree) : classOf src t.uncommented = classOf src t := by
  simp only [classOf, type_uncommented, constructor?_uncommented, Option.bind_map,
    Function.comp_def, constructedClass_uncommented]

end Platform
end Flowchart
