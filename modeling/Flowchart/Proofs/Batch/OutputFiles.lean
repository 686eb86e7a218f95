import Flowchart.Proofs.Batch.MakeDirs
import Flowchart.Proofs.Batch.Turns
import Mathlib.Data.List.Dedup
import Mathlib.Data.Set.Insert

/-! The outputs in a directory, and what the storing of a chart adds to them. -/
namespace Flowchart.Batch

/-- The extensions of outputs. -/
def outputExtensions : List String :=
  [".json", ".mmd", ".docx"]

/-- The file name of an output. -/
def outputFile (base extension : String) : List Char :=
  (base ++ extension).toList

section

variable {base base' extension extension' : String}

theorem outputFile_eq_append : outputFile base extension = base.toList ++ extension.toList :=
  String.toList_append ..

theorem isName_outputFile (hbase : '/' ∉ base.toList) (hext : extension ∈ outputExtensions) :
    Path.IsName (outputFile base extension) := by
  have hshape : ∀ e ∈ outputExtensions, 3 ≤ e.toList.length ∧ '/' ∉ e.toList := by decide
  obtain ⟨hlength, hslash⟩ := hshape extension hext
  have hfile : 3 ≤ (outputFile base extension).length := by
    rw [outputFile_eq_append, List.length_append]
    omega
  refine ⟨?_, ?_, ?_, ?_⟩
  · exact fun heq => absurd (heq ▸ hfile) (by decide)
  · exact fun heq => absurd (heq ▸ hfile) (by decide)
  · exact fun heq => absurd (heq ▸ hfile) (by decide)
  · rw [outputFile_eq_append, List.mem_append]
    exact not_or.mpr ⟨hbase, hslash⟩

/-- Outputs with different extensions are different files. -/
theorem outputFile_inj (hext : extension ∈ outputExtensions)
    (hext' : extension' ∈ outputExtensions) :
    outputFile base extension = outputFile base' extension' ↔
      base = base' ∧ extension = extension' := by
  have hlast : ∀ e ∈ outputExtensions, ∀ e' ∈ outputExtensions,
      e.toList.getLast? = e'.toList.getLast? → e = e' := by decide
  have hne : ∀ e ∈ outputExtensions, e.toList ≠ [] := by decide
  rw [outputFile_eq_append, outputFile_eq_append]
  constructor
  · intro heq
    have hends := congrArg List.getLast? heq
    rw [List.getLast?_append_of_ne_nil _ (hne _ hext),
      List.getLast?_append_of_ne_nil _ (hne _ hext')] at hends
    obtain rfl := hlast _ hext _ hext' hends
    exact ⟨String.toList_inj.mp (List.append_cancel_right heq), rfl⟩
  · rintro ⟨rfl, rfl⟩
    rfl

end

namespace Files

variable {fs made : Files} {dir : List Char} {place : Place} {base extension : String}

/-- The names in a directory that end with an extension, in order. -/
def namesEnding (fs : Files) (dir : List Char) (extension : String) : List (List Char) :=
  match fs.locate .lookUp dir with
  | .ok place =>
    if fs.item? place = some .directory then
      (fs.namesIn place).filter fun name => extension.toList.isSuffixOf name
    else []
  | .error _ => []

theorem IsDirectoryAt.namesEnding (h : fs.IsDirectoryAt dir place) (extension : String) :
    fs.namesEnding dir extension =
      (fs.namesIn place).filter fun name => extension.toList.isSuffixOf name := by
  rw [Files.namesEnding, h.locate]
  exact if_pos h.item?

/-- The place of an output. -/
def outputPlace (place : Place) (base extension : String) : Place :=
  place ++ [outputFile base extension]

/-- The names of which there is an output. -/
def stored (fs : Files) (place : Place) (extension : String) : Set String :=
  {base | (fs.item? (outputPlace place base extension)).isSome}

theorem mem_stored_iff :
    base ∈ fs.stored place extension ↔ (fs.item? (outputPlace place base extension)).isSome :=
  Iff.rfl

/-- The path leads to a directory in which all outputs are files. -/
structure IsOutputDirectory (fs : Files) (dir : List Char) (place : Place) : Prop where
  directory : fs.IsDirectoryAt dir place
  nodup : (fs.items.map (·.1)).Nodup
  isFile : ∀ extension ∈ outputExtensions, ∀ base item,
    fs.item? (outputPlace place base extension) = some item → ∃ content, item = .file content

theorem outputPlace_ne_nil : outputPlace place base extension ≠ [] :=
  List.concat_ne_nil _ place

/-- Each name with an output is listed once. -/
theorem IsOutputDirectory.length_namesEnding (h : fs.IsOutputDirectory dir place)
    {bases : List String} (hbases : fs.stored place extension = {base | base ∈ bases}) :
    (fs.namesEnding dir extension).length = bases.dedup.length := by
  have hmem (name : List Char) :
      name ∈ (fs.namesIn place).filter (fun name => extension.toList.isSuffixOf name) ↔
        name ∈ bases.dedup.map (outputFile · extension) := by
    rw [List.mem_filter, List.isSuffixOf_iff_suffix, List.mem_map]
    constructor
    · rintro ⟨hname, start, rfl⟩
      refine ⟨.ofList start, List.mem_dedup.mpr ?_, ?_⟩
      · have hstored : String.ofList start ∈ fs.stored place extension := by
          rw [mem_stored_iff, outputPlace, outputFile_eq_append, String.toList_ofList]
          exact mem_namesIn_iff.mp hname
        rw [hbases] at hstored
        exact hstored
      · rw [outputFile_eq_append, String.toList_ofList]
    · rintro ⟨base, hbase, rfl⟩
      have hstored : base ∈ fs.stored place extension := hbases ▸ List.mem_dedup.mp hbase
      refine ⟨mem_namesIn_iff.mpr hstored, ?_⟩
      rw [outputFile_eq_append]
      exact List.suffix_append ..
  have hinj : Function.Injective (outputFile · extension) := fun base base' heq => by
    simp only [outputFile_eq_append] at heq
    exact String.toList_inj.mp (List.append_cancel_right heq)
  have hperm := (List.perm_ext_iff_of_nodup ((nodup_namesIn h.nodup place).filter _)
    (bases.nodup_dedup.map hinj)).mpr hmem
  rw [h.directory.namesEnding, hperm.length_eq, List.length_map]

/-- The path of an output or its file name is too long. -/
def IsTooLong (dir : List Char) (base extension : String) : Prop :=
  isOverlong (Path.under dir (outputFile base extension)) ∨
    nameLimit < (Utf8.encode (outputFile base extension)).length

instance (dir : List Char) (base extension : String) :
    Decidable (IsTooLong dir base extension) :=
  inferInstanceAs (Decidable (_ ∨ _))

/-- No extension has more bytes than that of the first output, so that a name which is too long
with any of them is too long with this one. -/
theorem IsTooLong.json (hbase : '/' ∉ base.toList) (hext : extension ∈ outputExtensions)
    (h : IsTooLong dir base extension) : IsTooLong dir base ".json" := by
  have hle : ∀ e ∈ outputExtensions,
      (Utf8.encode e.toList).length ≤ (Utf8.encode ".json".toList).length := by decide
  have hfile : (Utf8.encode (outputFile base extension)).length ≤
      (Utf8.encode (outputFile base ".json")).length := by
    simp only [outputFile_eq_append, Utf8.encode, List.flatMap_append, List.length_append]
    exact Nat.add_le_add_left (hle extension hext) _
  refine h.imp (fun hlong => ?_) fun hlong => Nat.lt_of_lt_of_le hlong hfile
  obtain ⟨start, hstart⟩ := Path.exists_under_eq dir
  rw [hstart _ (isName_outputFile hbase hext).slash_not_mem, isOverlong, decide_eq_true_eq] at hlong
  rw [hstart _ (isName_outputFile hbase List.mem_cons_self).slash_not_mem, isOverlong,
    decide_eq_true_eq]
  rw [Utf8.encode, List.flatMap_append, List.length_append] at hlong ⊢
  exact Nat.lt_of_lt_of_le hlong (Nat.add_le_add_left hfile _)

theorem IsOutputDirectory.write (h : fs.IsOutputDirectory dir place) (hbase : '/' ∉ base.toList)
    (hext : extension ∈ outputExtensions) (content : Content) :
    fs.write (Path.under dir (outputFile base extension)) content =
      if IsTooLong dir base extension then
        .error ⟨.nameTooLong, Path.under dir (outputFile base extension)⟩
      else .ok (fs.put (outputPlace place base extension) (.file content)) := by
  have hfile := h.isFile extension hext base
  have hlocate : fs.locate .makeFile (Path.under dir (outputFile base extension)) =
      if IsTooLong dir base extension then .error .nameTooLong
      else .ok (outputPlace place base extension) :=
    h.directory.locate_under (isName_outputFile hbase hext) (fun text htext => by
      obtain ⟨content, hcontent⟩ := hfile _ htext
      cases hcontent) .makeFile
  by_cases hlong : IsTooLong dir base extension
  · rw [if_pos hlong] at hlocate ⊢
    rw [Files.write, hlocate]
  · rw [if_neg hlong] at hlocate ⊢
    have hdir : fs.item? (outputPlace place base extension) ≠ some .directory := fun hdir => by
      obtain ⟨content, hcontent⟩ := hfile _ hdir
      cases hcontent
    simp only [Files.write, hlocate, if_neg hdir]

theorem IsOutputDirectory.put (h : fs.IsOutputDirectory dir place) (base : String)
    (hext : extension ∈ outputExtensions) (content : Content) :
    (fs.put (outputPlace place base extension) (.file content)).IsOutputDirectory dir place where
  directory := by
    refine h.directory.grows (.put outputPlace_ne_nil fun old hold => ?_)
    obtain ⟨content', rfl⟩ := h.isFile extension hext base old hold
    rfl
  nodup := nodup_put h.nodup _ _
  isFile := fun extension' hext' base' item hitem => by
    rw [item?_put fs outputPlace_ne_nil] at hitem
    split at hitem
    · exact ⟨content, (Option.some.inj hitem).symm⟩
    · exact h.isFile extension' hext' base' item hitem

theorem stored_put {extension' : String} (hext : extension ∈ outputExtensions)
    (hext' : extension' ∈ outputExtensions) (content : Content) :
    (fs.put (outputPlace place base extension) (.file content)).stored place extension' =
      if extension' = extension then insert base (fs.stored place extension')
      else fs.stored place extension' := by
  ext base'
  have hplace : outputPlace place base' extension' = outputPlace place base extension ↔
      base' = base ∧ extension' = extension := by
    rw [outputPlace, outputPlace, List.append_cancel_left_eq, List.cons.injEq,
      and_iff_left rfl, outputFile_inj hext' hext]
  rw [mem_stored_iff, item?_put fs outputPlace_ne_nil]
  by_cases he : extension' = extension
  · rw [if_pos he, Set.mem_insert_iff]
    by_cases hb : base' = base
    · rw [if_pos (hplace.mpr ⟨hb, he⟩)]
      simp [hb]
    · rw [if_neg fun heq => hb (hplace.mp heq).1]
      exact (or_iff_right hb).symm
  · rw [if_neg he, if_neg fun heq => he (hplace.mp heq).2]
    rfl

end Files
end Flowchart.Batch
