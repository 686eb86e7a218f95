import Flowchart.Proofs.Batch.ScriptNames
import Mathlib.Data.List.Forall2

/-! The order in which the scripts of a batch are taken. -/
namespace Flowchart

namespace Text

theorem comesFirst_trans {s t u : List Char} (h : comesFirst s t = true)
    (h' : comesFirst t u = true) : comesFirst s u = true := by
  induction s generalizing t u with
  | nil => rfl
  | cons a s ih =>
    cases t with
    | nil => cases h
    | cons b t =>
      cases u with
      | nil => cases h'
      | cons c u =>
        rw [comesFirst] at h h' ⊢
        split at h
        · rename_i hab
          subst hab
          split at h'
          · rename_i hac
            rw [if_pos hac]
            exact ih h h'
          · rename_i hac
            rwa [if_neg hac]
        · rename_i hab
          rw [decide_eq_true_eq] at h
          split at h'
          · rename_i hbc
            subst hbc
            rw [if_neg hab]
            exact decide_eq_true h
          · rw [decide_eq_true_eq] at h'
            have hlt := Nat.lt_trans h h'
            rw [if_neg fun hac => Nat.lt_irrefl _ (hac ▸ hlt)]
            exact decide_eq_true hlt

theorem comesFirst_total (s t : List Char) : (comesFirst s t || comesFirst t s) = true := by
  induction s generalizing t with
  | nil => rfl
  | cons a s ih =>
    cases t with
    | nil => rfl
    | cons b t =>
      rw [comesFirst, comesFirst]
      by_cases hab : a = b
      · rw [if_pos hab, if_pos hab.symm]
        exact ih t
      · have hne : a.toNat ≠ b.toNat := fun heq => hab (Char.toNat_inj.mp heq)
        rw [if_neg hab, if_neg (Ne.symm hab), Bool.or_eq_true, decide_eq_true_eq,
          decide_eq_true_eq]
        exact Nat.lt_or_gt_of_ne hne

end Text

namespace Batch

/-- Of two files in one directory, the one whose name comes first is the first one. -/
def InOrder (rel rel' : List (List Char)) : Prop :=
  rel.dropLast = rel'.dropLast →
    Text.comesFirst (rel.getLast?.getD []) (rel'.getLast?.getD []) = true

namespace Files

variable {fs : Files}

theorem pairwise_namesIn (fs : Files) (place : Place) :
    (fs.namesIn place).Pairwise fun a b => Text.comesFirst a b = true :=
  @List.pairwise_mergeSort _ Text.comesFirst (fun _ _ _ => Text.comesFirst_trans)
    Text.comesFirst_total _

/-- The names that lead to the files below a directory, in the order of the files. -/
def routes (fs : Files) : Nat → Place → List Char → List (List (List Char))
  | 0, _, _ => []
  | levels + 1, place, path =>
    let isBelow (name : List Char) : Bool := fs.item? (place ++ [name]) = some .directory
    let leadsDown (name : List Char) := isBelow name || fs.isDirectory (Path.under path name)
    if isOverlong path then []
    else
      ((fs.namesIn place).filter (!leadsDown ·)).map ([·]) ++
        ((fs.listing place).filter isBelow).flatMap fun name =>
          (routes fs levels (place ++ [name]) (Path.under path name)).map (name :: ·)

theorem walk_eq (fs : Files) (levels : Nat) (place : Place) (path : List Char) :
    fs.walk levels place path = (fs.routes levels place path).map (Path.below path) := by
  induction levels generalizing place path with
  | zero => rfl
  | succ levels ih =>
    rw [walk, routes]
    split
    · rfl
    · rw [List.map_append, List.map_map, List.map_flatMap]
      simp only [ih, List.map_map]
      rfl

theorem exists_cons_of_mem_routes {levels : Nat} {place : Place} {path : List Char}
    {rel : List (List Char)} (h : rel ∈ fs.routes levels place path) :
    ∃ name rest, rel = name :: rest ∧ name ∈ fs.listing place := by
  cases levels with
  | zero => exact absurd h List.not_mem_nil
  | succ levels =>
    rw [routes] at h
    split at h
    · exact absurd h List.not_mem_nil
    · rcases List.mem_append.mp h with h | h
      · obtain ⟨name, hname, rfl⟩ := List.mem_map.mp h
        exact ⟨name, [], rfl, List.mem_mergeSort.mp (List.mem_of_mem_filter hname)⟩
      · obtain ⟨name, hname, hrel⟩ := List.mem_flatMap.mp h
        obtain ⟨rest, -, rfl⟩ := List.mem_map.mp hrel
        exact ⟨name, rest, rfl, List.mem_of_mem_filter hname⟩

theorem isName_of_mem_routes (hfs : fs.WellFormed) {levels : Nat} {place : Place}
    {path : List Char} {rel : List (List Char)} (h : rel ∈ fs.routes levels place path) :
    ∀ name ∈ rel, Path.IsName name := by
  induction levels generalizing place path rel with
  | zero => exact absurd h List.not_mem_nil
  | succ levels ih =>
    rw [routes] at h
    split at h
    · exact absurd h List.not_mem_nil
    · rcases List.mem_append.mp h with h | h
      · obtain ⟨name, hname, rfl⟩ := List.mem_map.mp h
        have hname := List.mem_mergeSort.mp (List.mem_of_mem_filter hname)
        exact List.forall_mem_singleton.mpr (isName_of_mem_listing hfs hname)
      · obtain ⟨name, hname, houter⟩ := List.mem_flatMap.mp h
        obtain ⟨rest, hinner, rfl⟩ := List.mem_map.mp houter
        exact List.forall_mem_cons.mpr
          ⟨isName_of_mem_listing hfs (List.mem_of_mem_filter hname), ih hinner⟩

/-- The files of each directory come in the order of their names. -/
theorem pairwise_routes (hfs : fs.WellFormed) (levels : Nat) (place : Place) (path : List Char) :
    (fs.routes levels place path).Pairwise InOrder := by
  induction levels generalizing place path with
  | zero => exact .nil
  | succ levels ih =>
    rw [routes]
    split
    · exact .nil
    refine List.pairwise_append.mpr ⟨?_, List.pairwise_flatMap.mpr ⟨fun name _ => ?_, ?_⟩, ?_⟩
    · refine List.pairwise_map.mpr (((fs.pairwise_namesIn place).filter _).imp ?_)
      intro name name' h _
      exact h
    · refine List.pairwise_map.mpr ((ih (place ++ [name]) (Path.under path name)).imp_of_mem
        fun {rel rel'} hrel hrel' horder hdir => ?_)
      obtain ⟨first, rest, rfl, -⟩ := exists_cons_of_mem_routes hrel
      obtain ⟨first', rest', rfl, -⟩ := exists_cons_of_mem_routes hrel'
      exact horder (List.cons.inj hdir).2
    · -- Files below different directories are not compared.
      refine ((nodup_listing hfs.nodup place).filter _).imp
        fun {name name'} hne rel hrel rel' hrel' hdir => ?_
      obtain ⟨_, hinner, rfl⟩ := List.mem_map.mp hrel
      obtain ⟨_, hinner', rfl⟩ := List.mem_map.mp hrel'
      obtain ⟨first, rest, rfl, -⟩ := exists_cons_of_mem_routes hinner
      obtain ⟨first', rest', rfl, -⟩ := exists_cons_of_mem_routes hinner'
      exact absurd (List.cons.inj hdir).1 hne
    · intro rel hrel rel' hrel' hdir
      obtain ⟨name, -, rfl⟩ := List.mem_map.mp hrel
      obtain ⟨name', -, houter⟩ := List.mem_flatMap.mp hrel'
      obtain ⟨_, hinner, rfl⟩ := List.mem_map.mp houter
      obtain ⟨first, rest, rfl, -⟩ := exists_cons_of_mem_routes hinner
      cases hdir

end Files

/-- The scripts of a directory are taken one directory after the other, and in each of them in the
order of their names. -/
theorem scriptsAt_inOrder {fs : Files} (hfs : fs.WellFormed) {root : List Char}
    (hfile : fs.isFile root = false) {scripts : List Script}
    (hscripts : scriptsAt fs root = .ok scripts) :
    ∃ rels, List.Forall₂ (fun script rel => script.IsAt root rel) scripts rels ∧
      rels.Pairwise InOrder := by
  have hfound : ∃ rels : List (List (List Char)), fs.filesBelow root = rels.map (Path.below root) ∧
      (∀ rel ∈ rels, rel ≠ [] ∧ ∀ name ∈ rel, Path.IsName name) ∧ rels.Pairwise InOrder := by
    rw [Files.filesBelow]
    split
    · rename_i place _
      split
      · refine ⟨_, fs.walk_eq _ place root, fun rel hrel =>
          ⟨?_, Files.isName_of_mem_routes hfs hrel⟩, Files.pairwise_routes hfs _ place root⟩
        obtain ⟨name, rest, rfl, -⟩ := Files.exists_cons_of_mem_routes hrel
        exact List.cons_ne_nil name rest
      · exact ⟨[], rfl, by simp, .nil⟩
    · exact ⟨[], rfl, by simp, .nil⟩
  obtain ⟨rels, hbelow, hnames, hsorted⟩ := hfound
  rw [scriptsAt, if_neg (by simp [hfile])] at hscripts
  split at hscripts
  · cases hscripts
  · obtain rfl := Except.ok.inj hscripts
    rw [hbelow, List.filter_map, List.map_map]
    refine ⟨_, List.forall₂_map_left_iff.mpr (List.forall₂_same.mpr fun rel hrel => ?_),
      hsorted.filter _⟩
    obtain ⟨hne, hname⟩ := hnames rel (List.mem_of_mem_filter hrel)
    exact isAt_below hne hname

end Batch
end Flowchart
