import Flowchart.Batch.Run
import Flowchart.Proofs.Batch.MakeDirs
import Mathlib.Data.Set.Defs

/-! Files put at places that are free for them. Paths go on to lead where they led before. -/
namespace Flowchart.Batch.Files

/-- There is nothing at the place, or a file. -/
def IsFree (fs : Files) (place : Place) : Prop :=
  ∀ item, fs.item? place = some item → ∃ content, item = .file content

/-- The second files are the first ones with files put at some of the places. -/
structure Filled (places : Set Place) (fs fs' : Files) : Prop where
  grows : Grows fs fs'
  inside : ∀ q ∈ places, fs'.IsFree q
  outside : ∀ q ∉ places, fs'.item? q = fs.item? q

variable {places : Set Place} {fs fs' fs'' : Files} {place : Place} {path : List Char}

theorem IsFree.ne_nil (h : fs.IsFree place) : place ≠ [] := by
  rintro rfl
  obtain ⟨content, hcontent⟩ := h _ fs.item?_root
  cases hcontent

namespace Filled

theorem refl (hfree : ∀ q ∈ places, fs.IsFree q) : Filled places fs fs :=
  ⟨.refl fs, hfree, fun _ _ => rfl⟩

theorem mono (h : Filled places fs fs') {places' : Set Place} (hsub : places ⊆ places')
    (hfree : ∀ q ∈ places', fs.IsFree q) : Filled places' fs fs' := by
  refine ⟨h.grows, fun q hq => ?_, fun q hq => h.outside q fun hmem => hq (hsub hmem)⟩
  by_cases hmem : q ∈ places
  · exact h.inside q hmem
  · intro item hitem
    exact hfree q hq item ((h.outside q hmem).symm.trans hitem)

theorem put (h : Filled places fs fs') (hplace : place ∈ places) (content : Content) :
    Filled places fs (fs'.put place (.file content)) := by
  have hne := (h.inside place hplace).ne_nil
  refine ⟨h.grows.trans (.put hne fun old hold => ?_), fun q hq => ?_, fun q hq => ?_⟩
  · obtain ⟨content', rfl⟩ := h.inside place hplace old hold
    rfl
  · intro item hitem
    rw [item?_put fs' hne] at hitem
    split at hitem
    · exact ⟨content, (Option.some.inj hitem).symm⟩
    · exact h.inside q hq item hitem
  · have hother : q ≠ place := fun heq => hq (heq ▸ hplace)
    rw [item?_put fs' hne, if_neg hother, h.outside q hq]

theorem directory_iff (h : Filled places fs fs') (q : Place) :
    fs'.item? q = some .directory ↔ fs.item? q = some .directory := by
  refine ⟨fun hdir => ?_, h.grows.directory⟩
  have hq : q ∉ places := fun hq => by
    obtain ⟨content, hcontent⟩ := h.inside q hq _ hdir
    cases hcontent
  exact (h.outside q hq).symm.trans hdir

theorem follow (h : Filled places fs fs') {purpose : Purpose}
    {jump jump' : Place → List (List Char) → Except Refusal Place}
    (hjump : ∀ start ps q, jump start ps = .ok q → jump' start ps = .ok q) {here : Place}
    {parts : List (List Char)} (hfound : fs.follow purpose jump here parts = .ok place) :
    fs'.follow purpose jump' here parts = .ok place := by
  induction parts generalizing here with
  | nil => exact hfound
  | cons name rest ih =>
    obtain ⟨hdir, honward⟩ := follow_cons_eq_ok_iff.mp hfound
    refine follow_cons_eq_ok_iff.mpr ⟨h.grows.directory hdir, ?_⟩
    cases honward with
    | stay hname hrest => exact .stay hname (ih hrest)
    | up hname hrest => exact .up hname (ih hrest)
    | last hname hitem hrest hplace =>
      subst hrest hplace
      cases hitem' : fs'.item? (here ++ [name]) with
      | none => exact .last hname hitem' rfl rfl
      | some item' =>
        -- Where there was nothing, there can only be a file that was put there.
        have hmem : here ++ [name] ∈ places := by
          by_contra hplace
          exact absurd ((h.outside _ hplace).symm.trans hitem') (by simp [hitem])
        obtain ⟨content, rfl⟩ := h.inside _ hmem _ hitem'
        exact .down hname (fun _ => rfl) hitem' (fun _ => by simp) rfl
    | link hname hlast hitem hrest =>
      exact .link hname hlast (h.grows.link hitem) (hjump _ _ _ hrest)
    | down hname hlast hitem hlink hrest =>
      obtain ⟨item', hitem', houtline⟩ := h.grows.item? hitem
      refine .down hname hlast hitem' (fun text hlink' => ?_) (ih hrest)
      subst hlink'
      exact hlink text (Item.outline_eq_link.mp houtline.symm)

theorem locateWithin (h : Filled places fs fs') {purpose : Purpose} {links : Nat} {here : Place}
    {parts : List (List Char)} (hfound : fs.locateWithin purpose links here parts = .ok place) :
    fs'.locateWithin purpose links here parts = .ok place := by
  induction links generalizing here parts place with
  | zero => cases hfound
  | succ links ih => exact h.follow (fun start ps q hjump => ih hjump) hfound

/-- A path leads to the place that it has led to. -/
theorem locate (h : Filled places fs fs') {purpose : Purpose}
    (hfound : fs.locate purpose path = .ok place) : fs'.locate purpose path = .ok place := by
  rw [Files.locate] at hfound ⊢
  split at hfound
  · cases hfound
  rename_i hne
  rw [if_neg hne]
  split at hfound
  · cases hfound
  rename_i hlong
  rw [if_neg hlong, h.grows.cwd]
  exact h.locateWithin hfound

theorem write (h : Filled places fs fs') (hplace : place ∈ places)
    (hfound : fs.locate .makeFile path = .ok place) (content : Content) :
    fs'.write path content = .ok (fs'.put place (.file content)) := by
  have hfile : fs'.item? place ≠ some .directory := fun hdir => by
    obtain ⟨content, hcontent⟩ := h.inside place hplace _ hdir
    cases hcontent
  simp only [Files.write, h.locate hfound, if_neg hfile]

/-- What is outside the places is read as before. -/
theorem read (h : Filled places fs fs') (hplace : place ∉ places)
    (hfound : fs.locate .lookUp path = .ok place) : fs'.read path = fs.read path := by
  simp only [Files.read, find, h.locate hfound, hfound]
  dsimp only [bind, Except.bind]
  rw [h.outside place hplace]

end Filled

/-! What several writes leave. -/

theorem writeAll_append (fs : Files) {ws : List (List Char × Content)}
    (h : writeAll fs ws = (fs', none)) (ws' : List (List Char × Content)) :
    writeAll fs (ws ++ ws') = writeAll fs' ws' := by
  induction ws generalizing fs with
  | nil =>
    cases h
    rfl
  | cons w rest ih =>
    obtain ⟨path, content⟩ := w
    rw [List.cons_append, writeAll]
    rw [writeAll] at h
    cases hwrite : fs.write path content with
    | error e =>
      rw [hwrite] at h
      cases h
    | ok fs =>
      rw [hwrite] at h
      exact ih fs h

/-- Each path leads to one of the places. -/
def LeadInto (fs : Files) (places : Set Place) (ws : List (List Char × Content)) : Prop :=
  ∀ w ∈ ws, ∃ q ∈ places, fs.locate .makeFile w.1 = .ok q

theorem Filled.writeAll (h : Filled places fs fs') {ws : List (List Char × Content)}
    (hws : fs.LeadInto places ws) :
    ∃ fs'', writeAll fs' ws = (fs'', none) ∧ Filled places fs fs'' ∧
      ∀ q, (∀ w ∈ ws, fs.locate .makeFile w.1 ≠ .ok q) → fs''.item? q = fs'.item? q := by
  induction ws generalizing fs' with
  | nil => exact ⟨fs', rfl, h, fun _ _ => rfl⟩
  | cons w rest ih =>
    obtain ⟨path, content⟩ := w
    obtain ⟨⟨place, hplace, hfound⟩, hrest⟩ := List.forall_mem_cons.mp hws
    obtain ⟨fs'', hall, hfilled, hkept⟩ := ih (h.put hplace content) hrest
    refine ⟨fs'', ?_, hfilled, fun q hq => ?_⟩
    · rw [Batch.writeAll, h.write hplace hfound content]
      exact hall
    · obtain ⟨hfirst, hothers⟩ := List.forall_mem_cons.mp hq
      have hne : q ≠ place := fun heq => hfirst (heq ▸ hfound)
      rw [hkept q hothers, item?_put fs' (h.inside place hplace).ne_nil, if_neg hne]

/-- A file holds what was written to it last. -/
theorem Filled.item?_writeAll (h : Filled places fs fs') {before after : List (List Char × Content)}
    {content : Content} (hws : fs.LeadInto places (before ++ (path, content) :: after))
    (hfound : fs.locate .makeFile path = .ok place)
    (hlast : ∀ w ∈ after, fs.locate .makeFile w.1 ≠ .ok place)
    (hall : Batch.writeAll fs' (before ++ (path, content) :: after) = (fs'', none)) :
    fs''.item? place = some (.file content) := by
  obtain ⟨hbefore, hrest⟩ := List.forall_mem_append.mp hws
  obtain ⟨⟨place', hplace, hfound'⟩, hafter⟩ := List.forall_mem_cons.mp hrest
  obtain rfl : place = place' := Except.ok.inj (hfound.symm.trans hfound')
  obtain ⟨middle, hmiddle, hfilled, -⟩ := h.writeAll hbefore
  have hput := hfilled.put hplace content
  obtain ⟨last, hdone, -, hkept⟩ := hput.writeAll hafter
  rw [writeAll_append fs' hmiddle, Batch.writeAll, hfilled.write hplace hfound content] at hall
  obtain rfl : last = fs'' := congrArg Prod.fst (hdone.symm.trans hall)
  rw [hkept place hlast, item?_put middle (hfilled.inside place hplace).ne_nil, if_pos rfl]

/-! Where paths lead without a file being made. -/

theorem follow_lookUp {jump jump' : Place → List (List Char) → Except Refusal Place}
    (hjump : ∀ start ps q, jump start ps = .ok q → jump' start ps = .ok q) {here : Place}
    {parts : List (List Char)} (hfound : fs.follow .makeFile jump here parts = .ok place) :
    fs.follow .lookUp jump' here parts = .ok place := by
  induction parts generalizing here with
  | nil => exact hfound
  | cons name rest ih =>
    obtain ⟨hdir, honward⟩ := follow_cons_eq_ok_iff.mp hfound
    refine follow_cons_eq_ok_iff.mpr ⟨hdir, ?_⟩
    cases honward with
    | stay hname hrest => exact .stay hname (ih hrest)
    | up hname hrest => exact .up hname (ih hrest)
    | last hname hitem hrest hplace => exact .last hname hitem hrest hplace
    | link hname _ hitem hrest => exact .link hname (by simp) hitem (hjump _ _ _ hrest)
    | down hname _ hitem hlink hrest => exact .down hname (by simp) hitem hlink (ih hrest)

/-- Where a file can be made, there it is found. -/
theorem locate_lookUp (hfound : fs.locate .makeFile path = .ok place) :
    fs.locate .lookUp path = .ok place := by
  have hwithin (links : Nat) : ∀ here parts place,
      fs.locateWithin .makeFile links here parts = .ok place →
        fs.locateWithin .lookUp links here parts = .ok place := by
    induction links with
    | zero => exact fun here parts place h => by cases h
    | succ links ih => exact fun here parts place h => follow_lookUp ih h
  rw [locate] at hfound ⊢
  split at hfound
  · cases hfound
  rename_i hne
  rw [if_neg hne]
  split at hfound
  · cases hfound
  rename_i hlong
  rw [if_neg hlong]
  exact hwithin _ _ _ _ hfound

/-! What a new directory leaves as it is. -/

theorem Grows.locate (h : Grows fs fs') (hfound : fs.locate .lookUp path = .ok place)
    (hsome : (fs.item? place).isSome) : fs'.locate .lookUp path = .ok place := by
  have hne : path ≠ [] := by
    rintro rfl
    cases hfound
  rw [locate_eq hne] at hfound ⊢
  split at hfound
  · cases hfound
  rename_i hlong
  have hstart : fs'.startOf path = fs.startOf path := by rw [startOf, startOf, h.cwd]
  rw [if_neg hlong, hstart]
  exact ((leads_of_locateWithin hfound hsome).grows h).locateWithin

theorem read_eq_of_item? {text : String} (hfound : fs.locate .lookUp path = .ok place)
    (hitem : fs.item? place = some (.file (.text text))) :
    fs.read path = .ok (Utf8.encode text.toList) := by
  simp only [read, find, hfound]
  dsimp only [bind, Except.bind]
  rw [hitem]

theorem exists_item_of_read {bytes : List UInt8} (h : fs.read path = .ok bytes) :
    ∃ q item, fs.locate .lookUp path = .ok q ∧ fs.item? q = some item := by
  simp only [read, find] at h
  cases hfound : fs.locate .lookUp path with
  | error r =>
    rw [hfound] at h
    cases h
  | ok q =>
    rw [hfound] at h
    dsimp only [bind, Except.bind] at h
    cases hitem : fs.item? q with
    | none =>
      rw [hitem] at h
      cases h
    | some item => exact ⟨q, item, rfl, hitem⟩

/-- What can be read can be read in the same way when a directory has been made. -/
theorem read_of_makeDirs {dir : List Char} (h : fs.makeDirs dir = .ok fs') (hgrows : Grows fs fs')
    {bytes : List UInt8} (hread : fs.read path = .ok bytes) :
    ∃ q, fs.locate .lookUp path = .ok q ∧ fs'.locate .lookUp path = .ok q ∧
      fs'.read path = .ok bytes := by
  obtain ⟨q, item, hfound, hitem⟩ := exists_item_of_read hread
  have hfound' := hgrows.locate hfound (by simp [hitem])
  refine ⟨q, hfound, hfound', ?_⟩
  rw [← hread]
  simp only [read, find, hfound, hfound']
  dsimp only [bind, Except.bind]
  rw [(keeps_of_makeDirs h).item? hitem, hitem]

theorem null_not_mem_of_ensureDir {name : List Char} {dir : Except Refusal Place}
    {made : Files × Place} (h : fs.ensureDir path name dir = .ok made) : '\x00' ∉ path := by
  rw [ensureDir] at h
  split at h
  · cases h
  · rename_i hnull
    simpa using hnull

/-- A directory that has been made has no null character in its path. -/
theorem null_not_mem_of_makeDirs {dir : List Char} (hnormal : Path.IsNormal dir)
    (h : fs.makeDirs dir = .ok fs') : '\x00' ∉ dir := by
  obtain ⟨slashes, names, hslashes, hnames, rfl⟩ := hnormal
  rw [makeDirs, Path.leading_append hslashes hnames, Path.filter_parts_append hslashes hnames] at h
  rcases List.eq_nil_or_concat names with rfl | ⟨above, name, rfl⟩
  · rcases hslashes with rfl | rfl <;> decide
  · rw [List.concat_eq_append, List.reverse_concat] at h
    cases hmade : fs.makeDirsUp slashes (name :: above.reverse) with
    | error e =>
      rw [hmade] at h
      cases h
    | ok made =>
      rw [makeDirsUp, ← List.reverse_concat, List.reverse_reverse, List.reverse_reverse] at hmade
      rw [List.concat_eq_append]
      split at hmade
      · exact null_not_mem_of_ensureDir hmade
      · split at hmade
        · exact null_not_mem_of_ensureDir hmade
        · exact null_not_mem_of_ensureDir hmade
        · cases hmade

end Flowchart.Batch.Files
