import Flowchart.Batch.Run
import Flowchart.Proofs.Batch.Items
import Flowchart.Proofs.Batch.PathNames

/-! Where the scripts of a batch are, and the names that this gives to their outputs. -/
namespace Flowchart.Batch

/-- The names lead down to the script, and its outputs are named after them. -/
structure Script.IsAt (root : List Char) (rel : List (List Char)) (script : Script) : Prop where
  nonempty : rel ≠ []
  isName : ∀ name ∈ rel, Path.IsName name
  path : script.path = .ofList (Path.below root rel)
  base : script.base = outputName rel

variable {fs : Files}

theorem Files.isName_of_mem_listing (hfs : fs.WellFormed) {place : Place} {name : List Char}
    (h : name ∈ fs.listing place) : Path.IsName name := by
  have hsome := mem_listing_iff.mp h
  rw [item?, if_neg (List.concat_ne_nil name place), ← mem_places_iff] at hsome
  exact hfs.isName _ hsome name (List.mem_append_right place (List.mem_singleton_self name))

/-- The files below a directory are those that names lead down to. -/
theorem Files.exists_below_of_mem_walk (hfs : fs.WellFormed) {levels : Nat} {place : Place}
    {path p : List Char} (h : p ∈ fs.walk levels place path) :
    ∃ rel, rel ≠ [] ∧ (∀ name ∈ rel, Path.IsName name) ∧ p = Path.below path rel := by
  induction levels generalizing place path with
  | zero => exact absurd h List.not_mem_nil
  | succ levels ih =>
    rw [walk] at h
    split at h
    · exact absurd h (by simp)
    · rcases List.mem_append.mp h with h | h
      · obtain ⟨name, hname, rfl⟩ := List.mem_map.mp h
        have hname := isName_of_mem_listing hfs
          (List.mem_mergeSort.mp (List.mem_of_mem_filter hname))
        exact ⟨[name], List.cons_ne_nil _ _, by simpa using hname, rfl⟩
      · obtain ⟨name, hname, hp⟩ := List.mem_flatMap.mp h
        have hname := isName_of_mem_listing hfs (List.mem_of_mem_filter hname)
        obtain ⟨rel, -, hrel, rfl⟩ := ih hp
        exact ⟨name :: rel, List.cons_ne_nil _ _, List.forall_mem_cons.mpr ⟨hname, hrel⟩, rfl⟩

theorem isAt_below {root : List Char} {rel : List (List Char)} (hne : rel ≠ [])
    (h : ∀ name ∈ rel, Path.IsName name) :
    (Script.below fs root (Path.below root rel)).IsAt root rel := by
  refine ⟨hne, h, rfl, ?_⟩
  rw [Script.below, outputBase?_below (by rw [String.toList_ofList]; rfl) root hne h]
  rfl

/-- Each script of a directory is found under it by names, which name its outputs. -/
theorem exists_isAt_of_mem_scriptsAt (hfs : fs.WellFormed) {root : List Char}
    (hfile : fs.isFile root = false) {scripts : List Script}
    (hscripts : scriptsAt fs root = .ok scripts) :
    ∀ script ∈ scripts, ∃ rel, script.IsAt root rel := by
  rw [scriptsAt, if_neg (by simp [hfile])] at hscripts
  split at hscripts
  · cases hscripts
  · obtain rfl := Except.ok.inj hscripts
    intro script hscript
    obtain ⟨p, hp, rfl⟩ := List.mem_map.mp hscript
    have hp := List.mem_of_mem_filter hp
    rw [Files.filesBelow] at hp
    split at hp
    · split at hp
      · obtain ⟨rel, hne, hrel, rfl⟩ := Files.exists_below_of_mem_walk hfs hp
        exact ⟨rel, isAt_below hne hrel⟩
      · exact absurd hp List.not_mem_nil
    · exact absurd hp List.not_mem_nil

theorem slash_not_mem_base_below (root path : List Char) :
    '/' ∉ (Script.below fs root path).base.toList := by
  rw [Script.below]
  cases hbase : outputBase? (.ofList fs.cwdText) (.ofList path) (.ofList root) with
  | none => simp
  | some base => exact slash_not_mem_outputBase? hbase

theorem slash_not_mem_base {path : List Char} {scripts : List Script}
    (hscripts : scriptsAt fs path = .ok scripts) :
    ∀ script ∈ scripts, '/' ∉ script.base.toList := by
  rw [scriptsAt] at hscripts
  split at hscripts
  · obtain rfl := Except.ok.inj hscripts
    intro script hscript
    split at hscript
    · obtain rfl := List.mem_singleton.mp hscript
      exact slash_not_mem_base_below _ _
    · exact absurd hscript List.not_mem_nil
  · split at hscripts
    · cases hscripts
    · obtain rfl := Except.ok.inj hscripts
      intro script hscript
      obtain ⟨p, -, rfl⟩ := List.mem_map.mp hscript
      exact slash_not_mem_base_below _ _

end Flowchart.Batch
