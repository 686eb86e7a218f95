import Flowchart.Proofs.Batch.Directories

/-! A directory that is made with all those above it. -/
namespace Flowchart.Batch.Files

variable {fs fs' : Files} {dir : List Char} {place : Place} {slashes : List Char}
  {names : List (List Char)}

theorem isDirectoryAt_root (hslashes : slashes = ['/'] ∨ slashes = ['/', '/']) :
    fs.IsDirectoryAt slashes [] := by
  refine isDirectoryAt_iff.mpr ?_
  rcases hslashes with rfl | rfl
  · exact ⟨by simp, rfl, .stay rfl (.inl rfl) (.stay rfl (.inl rfl) .here), rfl⟩
  · exact ⟨by simp, rfl, .stay rfl (.inl rfl) (.stay rfl (.inl rfl) (.stay rfl (.inl rfl) .here)),
      rfl⟩

/-- What is there stays there, whether or not the directory can be made. -/
theorem keeps_makeDirsUp (fs : Files) (slashes : List Char) (names : List (List Char)) :
    Keeps fs (leftBy (fs.makeDirsUp slashes names)) := by
  induction names with
  | nil => exact .refl fs
  | cons name above ih =>
    rw [makeDirsUp]
    split
    · exact keeps_ensureDir ..
    · split
      · rename_i hmade
        rw [hmade] at ih
        exact ih.trans (keeps_ensureDir ..)
      · rename_i hmade
        rw [hmade] at ih
        exact ih.trans (keeps_ensureDir ..)
      · rename_i hmade
        rw [hmade] at ih
        exact ih

theorem keeps_of_makeDirs (h : fs.makeDirs dir = .ok fs') : Keeps fs fs' := by
  have hkeeps := fs.keeps_makeDirsUp (Path.leading dir)
    ((Path.parts dir).filter (· ≠ [])).reverse
  rw [makeDirs] at h
  generalize fs.makeDirsUp _ _ = made at h hkeeps
  cases made with
  | error failure => cases h
  | ok made =>
    cases h
    exact hkeeps

section

variable {name : List Char} {above : List (List Char)}
  (hslashes : slashes = ['/'] ∨ slashes = ['/', '/'])
  (hnames : ∀ other ∈ name :: above, Path.IsName other)

include hslashes hnames

theorem append_join_reverse_cons : slashes ++ Path.join (name :: above).reverse =
    Path.under (slashes ++ Path.join above.reverse) name := by
  have habove (other : List Char) (hother : other ∈ above.reverse) : Path.IsName other :=
    hnames other (List.mem_cons_of_mem name (List.mem_reverse.mp hother))
  rw [List.reverse_cons]
  exact Path.append_join_concat hslashes habove (hnames name List.mem_cons_self)

/-- A path without a null has none further up. -/
theorem null_not_mem_above (hnull : '\x00' ∉ slashes ++ Path.join (name :: above).reverse) :
    '\x00' ∉ slashes ++ Path.join above.reverse := by
  have hname := hnames name List.mem_cons_self
  obtain ⟨start, hunder⟩ := Path.exists_under_eq (slashes ++ Path.join above.reverse)
  rw [append_join_reverse_cons hslashes hnames, hunder name hname.slash_not_mem,
    List.append_assoc] at hnull
  exact fun hc => hnull (List.mem_append_left _ hc)

end

section

variable (hslashes : slashes = ['/'] ∨ slashes = ['/', '/'])
  (hnames : ∀ name ∈ names, Path.IsName name)

include hslashes hnames

/-- The directory with these names, given from the last one up, is where its path leads. -/
theorem isDirectoryAt_of_makeDirsUp (h : fs.makeDirsUp slashes names = .ok (fs', place)) :
    fs'.IsDirectoryAt (slashes ++ Path.join names.reverse) place := by
  induction names generalizing fs' place with
  | nil =>
    cases h
    exact (List.append_nil slashes).symm ▸ isDirectoryAt_root hslashes
  | cons name above ih =>
    have hname := hnames name List.mem_cons_self
    rw [append_join_reverse_cons hslashes hnames]
    rw [makeDirsUp, append_join_reverse_cons hslashes hnames] at h
    split at h
    · rename_i found hfound
      refine isDirectoryAt_of_ensureDir hname (fun other hother => ?_) h
      exact Except.ok.inj hother ▸ (placeOf?_eq_some_iff.mp hfound).1
    · split at h
      · rename_i made found hmade
        have hdir := ih (fun other hother =>
          hnames other (List.mem_cons_of_mem name hother)) hmade
        exact isDirectoryAt_of_ensureDir hname (fun other hother =>
          Except.ok.inj hother ▸ hdir.locate) h
      · exact isDirectoryAt_of_ensureDir hname (fun _ => id) h
      · cases h

/-- If there is something at the end of the path, it can only stand in the way. -/
theorem occupied_of_placeOf? (hnull : '\x00' ∉ slashes ++ Path.join names.reverse)
    (hplace : fs.placeOf? (slashes ++ Path.join names.reverse) = some place)
    {failure : DirectoryFailure} (h : fs.makeDirsUp slashes names = .error failure) :
    ∃ path, failure.error = .refused ⟨.occupied, path⟩ := by
  cases names with
  | nil => cases h
  | cons name above =>
    have hname := hnames name List.mem_cons_self
    have hne : slashes ++ Path.join above.reverse ≠ [] := by
      rcases hslashes with rfl | rfl <;> simp
    rw [append_join_reverse_cons hslashes hnames] at hplace hnull
    obtain ⟨found, hdir, hsome, hshort⟩ := exists_above_of_placeOf? hplace hne hname
    obtain ⟨hlong, -⟩ := leads_of_placeOf? hplace
    have hmade : fs.makeDir name found = .error .occupied := by
      simp only [makeDir, hdir.item?]
      rw [if_neg (Nat.not_lt_of_le hshort), if_pos hsome]
    rw [makeDirsUp, append_join_reverse_cons hslashes hnames] at h
    simp only [hdir.placeOf?] at h
    rw [ensureDir, if_neg (by simpa using hnull), if_neg (by simp [hlong])] at h
    simp only [Except.bind, hmade, hplace] at h
    split at h
    · cases h
    · cases h
      exact ⟨_, rfl⟩

end

/-- When a directory has been made, its path leads to one. -/
theorem isDirectoryAt_of_makeDirs (hnormal : Path.IsNormal dir)
    (h : fs.makeDirs dir = .ok fs') : ∃ place, fs'.IsDirectoryAt dir place ∧ Grows fs fs' := by
  have hgrows := (keeps_of_makeDirs h).grows
  obtain ⟨slashes, names, hslashes, hnames, rfl⟩ := hnormal
  rw [makeDirs, Path.leading_append hslashes hnames,
    Path.filter_parts_append hslashes hnames] at h
  cases hmade : fs.makeDirsUp slashes names.reverse with
  | error failure =>
    rw [hmade] at h
    cases h
  | ok made =>
    obtain ⟨fs', place⟩ := made
    rw [hmade] at h
    obtain rfl := Except.ok.inj h
    have hmade := isDirectoryAt_of_makeDirsUp hslashes (fun name hname =>
      hnames name (List.mem_reverse.mp hname)) hmade
    rw [List.reverse_reverse] at hmade
    exact ⟨place, hmade, hgrows⟩

/-- What could not be made cannot be made of what has been left, for the same reason. -/
theorem makeDirsUp_of_failure (hslashes : slashes = ['/'] ∨ slashes = ['/', '/'])
    (hnames : ∀ name ∈ names, Path.IsName name)
    (hnull : '\x00' ∉ slashes ++ Path.join names.reverse) {failure : DirectoryFailure}
    (h : fs.makeDirsUp slashes names = .error failure) :
    failure.files.makeDirsUp slashes names = .error failure := by
  induction names generalizing failure with
  | nil => cases h
  | cons name above ih =>
    have habove (other : List Char) (hother : other ∈ above) : Path.IsName other :=
      hnames other (List.mem_cons_of_mem name hother)
    have hnull' := null_not_mem_above hslashes hnames hnull
    rw [makeDirsUp] at h
    split at h
    · rename_i found hfound
      obtain rfl := files_of_ensureDir_eq_error h
      simp only [makeDirsUp, hfound, h]
    · split at h
      · rename_i made found hmade
        obtain rfl := files_of_ensureDir_eq_error h
        have hdir := isDirectoryAt_of_makeDirsUp hslashes habove hmade
        simp only [makeDirsUp, hdir.placeOf?, h]
      · rename_i path made hmade
        obtain rfl := files_of_ensureDir_eq_error h
        have hagain := ih habove hnull' hmade
        rw [makeDirsUp]
        split
        · rename_i found hfound
          rwa [(placeOf?_eq_some_iff.mp hfound).1] at h
        · simp only [hagain, h]
      · rename_i failure' hoccupied hmade
        cases h
        have hagain := ih habove hnull' hmade
        rw [makeDirsUp]
        split
        · rename_i found hfound
          obtain ⟨path, hpath⟩ := occupied_of_placeOf? hslashes habove hnull' hfound hagain
          obtain ⟨error, made⟩ := failure
          obtain rfl : error = _ := hpath
          exact absurd rfl (hoccupied path made)
        · simp only [hagain]

theorem makeDirs_of_failure (hnormal : Path.IsNormal dir) (hnull : '\x00' ∉ dir)
    {failure : DirectoryFailure} (h : fs.makeDirs dir = .error failure) :
    failure.files.makeDirs dir = .error failure := by
  obtain ⟨slashes, names, hslashes, hnames, rfl⟩ := hnormal
  rw [makeDirs, Path.leading_append hslashes hnames,
    Path.filter_parts_append hslashes hnames] at h ⊢
  cases hmade : fs.makeDirsUp slashes names.reverse with
  | ok made =>
    rw [hmade] at h
    cases h
  | error failure' =>
    rw [hmade] at h
    cases h
    rw [makeDirsUp_of_failure hslashes (fun name hname => hnames name (List.mem_reverse.mp hname))
      (by rwa [List.reverse_reverse]) hmade]
    rfl

/-- To make a directory that is there changes nothing. -/
theorem IsDirectoryAt.makeDirs (h : fs.IsDirectoryAt dir place) (hnormal : Path.IsNormal dir)
    (hnull : '\x00' ∉ dir) : fs.makeDirs dir = .ok fs := by
  obtain ⟨slashes, names, hslashes, hnames, rfl⟩ := hnormal
  rw [Files.makeDirs, Path.leading_append hslashes hnames,
    Path.filter_parts_append hslashes hnames]
  rcases List.eq_nil_or_concat names with rfl | ⟨above, name, rfl⟩
  · rfl
  · rw [List.concat_eq_append] at h hnames hnull ⊢
    have hname := hnames name (by simp)
    have habove (other : List Char) (hother : other ∈ above) : Path.IsName other :=
      hnames other (List.mem_append_left _ hother)
    rw [Path.append_join_concat hslashes habove hname] at h hnull
    have hne : slashes ++ Path.join above ≠ [] := by rcases hslashes with rfl | rfl <;> simp
    obtain ⟨found, hfound, -⟩ := exists_above_of_placeOf? h.placeOf? hne hname
    rw [List.reverse_concat, makeDirsUp]
    simp only [List.reverse_cons, List.reverse_reverse, hfound.placeOf?,
      Path.append_join_concat hslashes habove hname]
    rw [h.ensureDir hname hfound hnull]
    rfl

end Flowchart.Batch.Files
