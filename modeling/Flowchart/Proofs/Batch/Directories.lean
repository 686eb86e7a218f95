import Flowchart.Proofs.Batch.Lookup

/-! Directories: what a path into one leads to, and what the making of one leaves. -/
namespace Flowchart.Batch.Files

variable {fs fs' : Files} {dir name : List Char} {place : Place}

/-- The path leads to a directory at the place. -/
structure IsDirectoryAt (fs : Files) (dir : List Char) (place : Place) : Prop where
  locate : fs.locate .lookUp dir = .ok place
  item? : fs.item? place = some .directory

/-- Where a path begins. -/
def startOf (fs : Files) (path : List Char) : Place :=
  if Path.isAbsolute path then [] else fs.cwd

theorem locate_eq {purpose : Purpose} {path : List Char} (hne : path ≠ []) :
    fs.locate purpose path =
      if isOverlong path then .error .nameTooLong
      else fs.locateWithin purpose linkLimit (fs.startOf path) (Path.parts path) := by
  rw [locate, if_neg hne]
  rfl

/-- The most links on the way of a path. -/
def mostLinks : Nat := 40

theorem isDirectoryAt_iff :
    fs.IsDirectoryAt dir place ↔ dir ≠ [] ∧ isOverlong dir = false ∧
      fs.Leads mostLinks (fs.startOf dir) (Path.parts dir) place ∧
      fs.item? place = some .directory := by
  constructor
  · rintro ⟨hlocate, hitem⟩
    have hne : dir ≠ [] := by
      rintro rfl
      cases hlocate
    rw [locate_eq hne] at hlocate
    split at hlocate
    · cases hlocate
    · rename_i hlong
      exact ⟨hne, by simpa using hlong, leads_of_locateWithin hlocate (by simp [hitem]), hitem⟩
  · rintro ⟨hne, hlong, hleads, hitem⟩
    refine ⟨?_, hitem⟩
    rw [locate_eq hne, if_neg (by simp [hlong])]
    exact hleads.locateWithin

theorem IsDirectoryAt.grows (h : fs.IsDirectoryAt dir place) (hgrows : Grows fs fs') :
    fs'.IsDirectoryAt dir place := by
  rw [isDirectoryAt_iff] at h ⊢
  obtain ⟨hne, hlong, hleads, hitem⟩ := h
  refine ⟨hne, hlong, ?_, hgrows.directory hitem⟩
  have hstart : fs'.startOf dir = fs.startOf dir := by rw [startOf, startOf, hgrows.cwd]
  exact hstart ▸ hleads.grows hgrows

theorem IsDirectoryAt.unique {place' : Place} (h : fs.IsDirectoryAt dir place)
    (h' : fs.IsDirectoryAt dir place') : place = place' :=
  Except.ok.inj (h.locate.symm.trans h'.locate)

theorem leads_concat_nil_iff {links : Nat} {start : Place} {ps : List (List Char)}
    (hdir : fs.item? place = some .directory) :
    fs.Leads links start (ps ++ [[]]) place ↔ fs.Leads links start ps place := by
  constructor
  · intro h
    obtain ⟨middle, less, h, hlast⟩ := h.exists_of_append
    cases hlast with
    | stay _ _ hhere =>
      cases hhere
      exact h
    | down _ hname => exact absurd rfl hname.nonempty
    | jump _ hname => exact absurd rfl hname.nonempty
  · exact fun h => h.append fun _ => .stay hdir (.inl rfl) .here

/-- A name in a directory at which there is no link is looked up there, unless it or the whole
path is too long. -/
theorem IsDirectoryAt.locate_under (h : fs.IsDirectoryAt dir place) (hname : Path.IsName name)
    (hlink : ∀ text, fs.item? (place ++ [name]) ≠ some (.link text)) (purpose : Purpose) :
    fs.locate purpose (Path.under dir name) =
      if isOverlong (Path.under dir name) ∨ nameLimit < (Utf8.encode name).length then
        .error .nameTooLong
      else .ok (place ++ [name]) := by
  obtain ⟨hne, -, hleads, hitem⟩ := isDirectoryAt_iff.mp h
  obtain ⟨ps, hparts, hdir⟩ := Path.parts_under hne hname.slash_not_mem
  have hleads : fs.Leads mostLinks (fs.startOf dir) ps place := by
    rcases hdir with rfl | hdir
    · exact hleads
    · exact (leads_concat_nil_iff hitem).mp (hdir ▸ hleads)
  have hunder : Path.under dir name ≠ [] := by
    intro hnil
    rw [hnil] at hparts
    have hlast := congrArg List.getLast? hparts
    rw [List.getLast?_concat] at hlast
    exact hname.nonempty (Option.some.inj hlast).symm
  have hstart : fs.startOf (Path.under dir name) = fs.startOf dir := by
    rw [startOf, startOf, Path.isAbsolute_under hne hname.slash_not_mem]
  rw [locate_eq hunder, hparts, hstart]
  have hlocate := hleads.locateWithin_concat hitem hname.nonempty hname.ne_dot hname.ne_dots hlink
    purpose
  split
  · rename_i hlong
    rw [if_pos (.inl hlong)]
  · rename_i hlong
    rw [if_congr (or_iff_right hlong) rfl rfl]
    exact hlocate

theorem placeOf?_eq_some_iff {path : List Char} :
    fs.placeOf? path = some place ↔
      fs.locate .lookUp path = .ok place ∧ (fs.item? place).isSome := by
  rw [placeOf?]
  cases fs.locate .lookUp path with
  | error r => simp
  | ok found =>
    simp only [Except.ok.injEq]
    constructor
    · intro h
      split at h
      · rename_i hsome
        obtain rfl := Option.some.inj h
        exact ⟨rfl, hsome⟩
      · cases h
    · rintro ⟨rfl, hsome⟩
      exact if_pos hsome

theorem IsDirectoryAt.placeOf? (h : fs.IsDirectoryAt dir place) :
    fs.placeOf? dir = some place :=
  placeOf?_eq_some_iff.mpr ⟨h.locate, by simp [h.item?]⟩

theorem leads_of_placeOf? {path : List Char} (h : fs.placeOf? path = some place) :
    isOverlong path = false ∧ fs.Leads mostLinks (fs.startOf path) (Path.parts path) place := by
  obtain ⟨hlocate, hsome⟩ := placeOf?_eq_some_iff.mp h
  have hne : path ≠ [] := by
    rintro rfl
    cases hlocate
  rw [locate_eq hne] at hlocate
  split at hlocate
  · cases hlocate
  · rename_i hlong
    exact ⟨by simpa using hlong, leads_of_locateWithin hlocate hsome⟩

/-- A name at which there is something stands in a directory. -/
theorem exists_above_of_placeOf? (h : fs.placeOf? (Path.under dir name) = some place)
    (hdir : dir ≠ []) (hname : Path.IsName name) :
    ∃ above, fs.IsDirectoryAt dir above ∧ (fs.item? (above ++ [name])).isSome ∧
      (Utf8.encode name).length ≤ nameLimit := by
  obtain ⟨hlong, hleads⟩ := leads_of_placeOf? h
  obtain ⟨ps, hparts, hps⟩ := Path.parts_under hdir hname.slash_not_mem
  have hstart : fs.startOf (Path.under dir name) = fs.startOf dir := by
    rw [startOf, startOf, Path.isAbsolute_under hdir hname.slash_not_mem]
  rw [hparts, hstart] at hleads
  obtain ⟨above, less, hleads, hlast⟩ := hleads.exists_of_append
  have hfound : fs.item? above = some .directory ∧ (fs.item? (above ++ [name])).isSome ∧
      (Utf8.encode name).length ≤ nameLimit := by
    cases hlast with
    | stay _ hstay => exact (hstay.elim hname.nonempty hname.ne_dot).elim
    | up => exact absurd rfl hname.ne_dots
    | down habove hstep hitem => exact ⟨habove, by simp [hitem], hstep.short⟩
    | jump habove hstep hitem => exact ⟨habove, by simp [hitem], hstep.short⟩
  refine ⟨above, isDirectoryAt_iff.mpr ⟨hdir, ?_, ?_, hfound.1⟩, hfound.2⟩
  · obtain ⟨start, hstart⟩ := Path.exists_under_eq dir
    rw [hstart name hname.slash_not_mem] at hlong
    rw [isOverlong, decide_eq_false_iff_not] at hlong ⊢
    rw [Utf8.encode, List.flatMap_append, List.flatMap_append, List.length_append,
      List.length_append] at hlong
    rw [Utf8.encode]
    omega
  · rcases hps with hps | hps
    · exact hps ▸ hleads
    · exact hps ▸ (leads_concat_nil_iff hfound.1).mpr hleads

/-- To make a directory that is there changes nothing. -/
theorem IsDirectoryAt.ensureDir (h : fs.IsDirectoryAt (Path.under dir name) place)
    (hname : Path.IsName name) {above : Place} (habove : fs.IsDirectoryAt dir above)
    (hnull : '\x00' ∉ Path.under dir name) :
    fs.ensureDir (Path.under dir name) name (.ok above) = .ok (fs, place) := by
  obtain ⟨hdir, -, -, -⟩ := isDirectoryAt_iff.mp habove
  obtain ⟨-, hlong, -, -⟩ := isDirectoryAt_iff.mp h
  obtain ⟨above', habove', hsome, hshort⟩ := exists_above_of_placeOf? h.placeOf? hdir hname
  obtain rfl := habove.unique habove'
  have hmade : fs.makeDir name above = .error .occupied := by
    simp only [makeDir, habove.item?]
    rw [if_neg (Nat.not_lt_of_le hshort), if_pos hsome]
  rw [Files.ensureDir, if_neg (by simpa using hnull), if_neg (by simp [hlong])]
  simp only [Except.bind, hmade, h.placeOf?, h.item?]
  rfl

theorem of_makeDir_eq_ok {above : Place} (h : fs.makeDir name above = .ok (fs', place)) :
    fs.item? above = some .directory ∧ (Utf8.encode name).length ≤ nameLimit ∧
      fs.item? (above ++ [name]) = none ∧ fs' = fs.put (above ++ [name]) .directory ∧
      place = above ++ [name] := by
  rw [makeDir] at h
  split at h
  · rename_i hitem
    split at h
    · cases h
    rename_i hshort
    split at h
    · cases h
    rename_i hnone
    cases h
    exact ⟨hitem, Nat.le_of_not_lt hshort, by simpa using hnone, rfl, rfl⟩
  · cases h
  · cases h

/-- A new directory is where its name leads from the directory that it is in. -/
theorem IsDirectoryAt.put_directory (h : fs.IsDirectoryAt dir place) (hname : Path.IsName name)
    (hlong : isOverlong (Path.under dir name) = false)
    (hshort : (Utf8.encode name).length ≤ nameLimit) (hnone : fs.item? (place ++ [name]) = none) :
    (fs.put (place ++ [name]) .directory).IsDirectoryAt (Path.under dir name)
      (place ++ [name]) := by
  have hne : place ++ [name] ≠ [] := List.concat_ne_nil name place
  have hput : (fs.put (place ++ [name]) .directory).item? (place ++ [name]) =
      some .directory := by
    rw [item?_put fs hne, if_pos rfl]
  refine ⟨?_, hput⟩
  rw [(h.grows (Keeps.put .directory hne hnone).grows).locate_under hname (by simp [hput])]
  exact if_neg (not_or.mpr ⟨by simp [hlong], Nat.not_lt_of_le hshort⟩)

/-- A directory that has been made is where its path leads. -/
theorem isDirectoryAt_of_ensureDir {above : Except Refusal Place} (hname : Path.IsName name)
    (habove : ∀ found, above = .ok found → fs.locate .lookUp dir = .ok found)
    (h : fs.ensureDir (Path.under dir name) name above = .ok (fs', place)) :
    fs'.IsDirectoryAt (Path.under dir name) place := by
  rw [ensureDir] at h
  split at h
  · cases h
  split at h
  · rename_i made hmade
    cases h
    split at hmade
    · cases hmade
    rename_i hlong
    cases above with
    | error r => cases hmade
    | ok found =>
      obtain ⟨hitem, hshort, hnone, rfl, rfl⟩ := of_makeDir_eq_ok hmade
      exact IsDirectoryAt.put_directory ⟨habove found rfl, hitem⟩ hname
        (by simpa using hlong) hshort hnone
  · split at h
    · rename_i found hfound
      split at h
      · rename_i hitem
        cases h
        exact ⟨(placeOf?_eq_some_iff.mp hfound).1, hitem⟩
      · cases h
    · cases h

/-- The files that are left when a directory was to be made. -/
def leftBy : Except DirectoryFailure (Files × Place) → Files
  | .ok (fs, _) => fs
  | .error failure => failure.files

theorem keeps_ensureDir (fs : Files) (path name : List Char) (above : Except Refusal Place) :
    Keeps fs (leftBy (fs.ensureDir path name above)) := by
  rw [ensureDir]
  split
  · exact .refl fs
  split
  · rename_i made hmade
    obtain ⟨fs', place⟩ := made
    split at hmade
    · cases hmade
    cases above with
    | error r => cases hmade
    | ok found =>
      obtain ⟨-, -, hnone, rfl, -⟩ := of_makeDir_eq_ok hmade
      exact .put .directory (List.concat_ne_nil name found) hnone
  · split
    · split
      · exact .refl fs
      · exact .refl fs
    · exact .refl fs

/-- A directory of its own that is not there after all leaves the files as they are. -/
theorem files_of_ensureDir_eq_error {path : List Char} {above : Except Refusal Place}
    {failure : DirectoryFailure} (h : fs.ensureDir path name above = .error failure) :
    failure.files = fs := by
  rw [ensureDir] at h
  split at h
  · cases h
    rfl
  split at h
  · cases h
  · split at h
    · split at h
      · cases h
      · cases h
        rfl
    · cases h
      rfl

end Flowchart.Batch.Files
