import Flowchart.Script.Fault

/-! The error of a damaged tree. The search on a stack, which looks only into trees that are marked,
finds the first fault in the preorder of the whole tree. -/
namespace Flowchart
namespace Tree

theorem preorder_eq (t : Tree) : t.preorder = t :: preorderAll t.children := by
  cases t with
  | node m cs => rfl

theorem preorderAll_append (ts us : List Tree) :
    preorderAll (ts ++ us) = preorderAll ts ++ preorderAll us := by
  induction ts with
  | nil => rfl
  | cons t ts ih => rw [List.cons_append, preorderAll, preorderAll, ih, List.append_assoc]

mutual

theorem hasFault_iff : (t : Tree) → (t.hasFault ↔ ∃ u ∈ t.preorder, u.isMarked)
  | node m cs => by
    rw [hasFault, preorder, Bool.or_eq_true, anyHasFault_iff cs]
    simp only [List.mem_cons, or_and_right, exists_or, exists_eq_left]

theorem anyHasFault_iff : (cs : List Tree) → (anyHasFault cs ↔ ∃ u ∈ preorderAll cs, u.isMarked)
  | [] => by simp [anyHasFault, preorderAll]
  | c :: cs => by
    rw [anyHasFault, preorderAll, Bool.or_eq_true, hasFault_iff c, anyHasFault_iff cs]
    simp only [List.mem_append, or_and_right, exists_or]

end

theorem isMarked_of_isFault {t : Tree} (h : t.isFault) : t.isMarked := by
  rw [isMarked, h, Bool.true_or]

/-- What is left out of the search holds no fault. -/
theorem find?_isFault_eq_none {t : Tree} (h : t.hasFault = false) :
    t.preorder.find? isFault = none := by
  rw [List.find?_eq_none]
  intro u hu hfault
  have hmarked : t.hasFault := t.hasFault_iff.mpr ⟨u, hu, isMarked_of_isFault hfault⟩
  rw [h] at hmarked
  cases hmarked

/-- The search on a stack finds the first fault in the preorder of the trees on it. -/
theorem firstFaultOn_eq (stack : List Tree) :
    firstFaultOn stack = (preorderAll stack).find? isFault := by
  induction stack using firstFaultOn.induct with
  | case1 => rw [firstFaultOn, preorderAll, List.find?_nil]
  | case2 t stack hfault =>
    rw [firstFaultOn, if_pos hfault, preorderAll, preorder_eq, List.cons_append,
      List.find?_cons_of_pos hfault]
  | case3 t stack hfault hmarked ih =>
    rw [firstFaultOn, if_neg hfault, if_pos hmarked, ih, preorderAll, preorderAll_append,
      preorder_eq, List.cons_append, List.find?_cons_of_neg hfault]
  | case4 t stack hfault hmarked ih =>
    rw [firstFaultOn, if_neg hfault, if_neg hmarked, ih, preorderAll, List.find?_append,
      find?_isFault_eq_none (Bool.eq_false_iff.mpr hmarked), Option.none_or]

theorem firstFault?_eq (t : Tree) : t.firstFault? = t.preorder.find? isFault := by
  rw [firstFault?, firstFaultOn_eq, preorderAll, preorderAll, List.append_nil]

/-- The node that a refused tree is refused for: the first one in preorder that is an error or
missing, and the root if there is none. -/
inductive Blames (t : Tree) : Tree → Prop where
  | first {before after : List Tree} {bad : Tree} (split : t.preorder = before ++ bad :: after)
      (fault : bad.isFault) (earlier : ∀ u ∈ before, u.isFault = false) : Blames t bad
  | root (sound : ∀ u ∈ t.preorder, u.isFault = false) : Blames t t

theorem blames_iff {t bad : Tree} : t.Blames bad ↔ t.firstFault?.getD t = bad := by
  rw [firstFault?_eq]
  constructor
  · rintro (⟨hsplit, hfault, hearlier⟩ | hsound)
    · rw [hsplit, List.find?_append, List.find?_eq_none.mpr (by simpa using hearlier),
        List.find?_cons_of_pos hfault]
      rfl
    · rw [List.find?_eq_none.mpr (by simpa using hsound)]
      rfl
  · rintro rfl
    cases hfind : t.preorder.find? isFault with
    | none =>
      refine .root fun u hu => ?_
      simpa using List.find?_eq_none.mp hfind u hu
    | some bad =>
      obtain ⟨hfault, before, after, hsplit, hearlier⟩ := List.find?_eq_some_iff_append.mp hfind
      exact .first hsplit hfault (by simpa using hearlier)

/-- A fault is told by what was expected just when its node is missing. -/
theorem message_fault (t : Tree) :
    (t.fault.message = "Expected " ++ Text.quote t.type ↔ t.mark.missing = true) ∧
      (t.fault.message = "Unexpected token" ↔ t.mark.missing = false) := by
  have hne : "Expected " ++ Text.quote t.type ≠ "Unexpected token" := by
    intro h
    have hhead := congrArg (fun s => s.toList.head?) h
    simp [String.toList_append] at hhead
  rw [fault]
  cases t.mark.missing with
  | false => simpa [Fault.message] using hne.symm
  | true => simpa [Fault.message] using hne

/-- A tree is accepted just when no node of it is an error, missing or damaged. Otherwise the error
is that of the first node in the preorder of the whole tree that is an error or missing, or of the
root when there is only damage. It tells what was expected just when that node is missing, and has
the place where the node starts. -/
theorem check_blames (src : Source) (t : Tree) :
    (t.check src = .ok () ↔ ∀ u ∈ t.preorder, u.isMarked = false) ∧
    (∀ e : ParseError, t.check src = .error e ↔ (∃ u ∈ t.preorder, u.isMarked) ∧
      ∃ bad, t.Blames bad ∧ e.fault = bad.fault ∧ e.location = src.location bad.span.start) ∧
    ∀ bad : Tree,
      (bad.fault.message = "Expected " ++ Text.quote bad.type ↔ bad.mark.missing = true) ∧
      (bad.fault.message = "Unexpected token" ↔ bad.mark.missing = false) := by
  refine ⟨?_, fun e => ?_, message_fault⟩
  · have hclean : t.hasFault = false ↔ ∀ u ∈ t.preorder, u.isMarked = false := by
      rw [Bool.eq_false_iff, Ne, hasFault_iff]
      simp
    rw [check, ← hclean]
    cases t.hasFault <;> simp
  · rw [check, ← hasFault_iff]
    constructor
    · intro h
      by_cases hmarked : t.hasFault
      · rw [if_pos hmarked] at h
        cases h
        exact ⟨hmarked, _, blames_iff.mpr rfl, rfl, rfl⟩
      · rw [if_neg hmarked] at h
        cases h
    · rintro ⟨hmarked, bad, hbad, hfault, hlocation⟩
      rw [if_pos hmarked, blames_iff.mp hbad]
      dsimp only
      rw [← hfault, ← hlocation]

end Tree
end Flowchart
