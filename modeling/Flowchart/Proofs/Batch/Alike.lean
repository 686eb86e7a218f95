import Flowchart.Batch.Run
import Flowchart.Proofs.Batch.Items

/-! Files that are the same but for the descriptions in JSON texts. Whatever is done to them alike
leaves them so. -/
namespace Flowchart

/-- Objects with the same members, except that a key may have another value. -/
inductive Json.SameBut (key : String) : Json → Json → Prop
  | obj (before after : List (String × Json)) (v v' : Json) :
      SameBut key (.obj (before ++ (key, v) :: after)) (.obj (before ++ (key, v') :: after))

theorem Json.SameBut.exists_members {key : String} {v v' : Json} (h : v.SameBut key v') :
    (∃ members ≠ [], v = .obj members) ∧ ∃ members ≠ [], v' = .obj members := by
  cases h with
  | obj before after v v' => exact ⟨⟨_, by simp, rfl⟩, ⟨_, by simp, rfl⟩⟩

theorem Chart.sameBut_toJson (c : Chart) (fileName : String)
    (descriptions descriptions' : List (String × String)) :
    (c.toJson fileName descriptions).SameBut "descriptions" (c.toJson fileName descriptions') :=
  .obj (c.members fileName) [("feedback", .strOrNull (c.problem.map Mermaid.Problem.message))] _ _

namespace Batch

inductive Content.Alike : Content → Content → Prop
  | same (content : Content) : Alike content content
  | json {v v' : Json} (h : v.SameBut "descriptions" v') : Alike (.text v.print) (.text v'.print)

inductive Item.Alike : Item → Item → Prop
  | same (item : Item) : Alike item item
  | file {content content' : Content} (h : content.Alike content') :
      Alike (.file content) (.file content')

theorem Item.Alike.outline_eq {item item' : Item} (h : item.Alike item') :
    item.outline = item'.outline := by
  cases h <;> rfl

/-- The same result up to a relation, or the same error. -/
inductive Agree {ε α : Type} (r : α → α → Prop) : Except ε α → Except ε α → Prop
  | ok {a b : α} (h : r a b) : Agree r (.ok a) (.ok b)
  | error (e : ε) : Agree r (.error e) (.error e)

namespace Files

/-- The same places, with items that are alike. -/
structure Alike (fs fs' : Files) : Prop where
  cwd : fs.cwd = fs'.cwd
  items : List.Forall₂ (fun entry entry' => entry.1 = entry'.1 ∧ entry.2.Alike entry'.2)
    fs.items fs'.items

/-- Alike files, and the same place. -/
def MadeAlike (made made' : Files × Place) : Prop :=
  made.1.Alike made'.1 ∧ made.2 = made'.2

/-- A directory is there in both cases, or in neither for one reason. -/
inductive DirectoryAlike {α : Type} (r : α → α → Prop) :
    Except DirectoryFailure α → Except DirectoryFailure α → Prop
  | made {a b : α} (h : r a b) : DirectoryAlike r (.ok a) (.ok b)
  | failed (e : DirectoryError) {fs fs' : Files} (h : fs.Alike fs') :
      DirectoryAlike r (.error ⟨e, fs⟩) (.error ⟨e, fs'⟩)

namespace Alike

theorem refl (fs : Files) : fs.Alike fs :=
  ⟨rfl, List.forall₂_same.mpr fun entry _ => ⟨rfl, .same entry.2⟩⟩

variable {fs fs' : Files}

private theorem lookup {entries entries' : List (Place × Item)}
    (h : List.Forall₂ (fun entry entry' => entry.1 = entry'.1 ∧ entry.2.Alike entry'.2)
      entries entries') (place : Place) :
    Option.Rel Item.Alike (entries.lookup place) (entries'.lookup place) := by
  induction h with
  | nil => exact .none
  | @cons entry entry' rest rest' hentry _ ih =>
    obtain ⟨p, item⟩ := entry
    obtain ⟨p', item'⟩ := entry'
    obtain ⟨rfl, hitem⟩ : p = p' ∧ item.Alike item' := hentry
    rw [List.lookup_cons, List.lookup_cons]
    split
    · exact .some hitem
    · exact ih

theorem item? (h : fs.Alike fs') (place : Place) :
    Option.Rel Item.Alike (fs.item? place) (fs'.item? place) := by
  rw [Files.item?, Files.item?]
  split
  · exact .some (.same .directory)
  · exact lookup h.items place

theorem outline_item? (h : fs.Alike fs') (place : Place) :
    (fs.item? place).map Item.outline = (fs'.item? place).map Item.outline := by
  have hitem := h.item? place
  generalize fs.item? place = found, fs'.item? place = found' at hitem
  cases hitem with
  | none => rfl
  | some hitem => exact congrArg some hitem.outline_eq

theorem directory_iff (h : fs.Alike fs') (place : Place) :
    fs.item? place = some .directory ↔ fs'.item? place = some .directory := by
  have hdirectory (found : Option Item) :
      found = some .directory ↔ found.map Item.outline = some .directory := by
    simp [Option.map_eq_some_iff]
  rw [hdirectory, hdirectory (fs'.item? place), h.outline_item? place]

theorem isSome_item? (h : fs.Alike fs') (place : Place) :
    (fs.item? place).isSome = (fs'.item? place).isSome := by
  have heq := congrArg Option.isSome (h.outline_item? place)
  rwa [Option.isSome_map, Option.isSome_map] at heq

/-- Where a path leads does not depend on what the files contain. -/
theorem follow (h : fs.Alike fs') (purpose : Purpose)
    (jump : Place → List (List Char) → Except Refusal Place) (here : Place)
    (parts : List (List Char)) :
    fs.follow purpose jump here parts = fs'.follow purpose jump here parts := by
  induction parts generalizing here with
  | nil => rfl
  | cons name rest ih =>
    have hitem := h.item? (here ++ [name])
    simp only [Files.follow, h.directory_iff here, ne_eq, ih]
    generalize fs.item? (here ++ [name]) = found, fs'.item? (here ++ [name]) = found' at hitem
    cases hitem with
    | none => rfl
    | some hitem =>
      cases hitem with
      | same item => rfl
      | file => rfl

theorem locateWithin (h : fs.Alike fs') (purpose : Purpose) (links : Nat) (here : Place)
    (parts : List (List Char)) :
    fs.locateWithin purpose links here parts = fs'.locateWithin purpose links here parts := by
  induction links generalizing here parts with
  | zero => rfl
  | succ links ih =>
    have hjump : fs.locateWithin purpose links = fs'.locateWithin purpose links :=
      funext fun here => funext fun parts => ih here parts
    rw [Files.locateWithin, Files.locateWithin, hjump]
    exact h.follow purpose _ here parts

theorem locate (h : fs.Alike fs') (purpose : Purpose) (path : List Char) :
    fs.locate purpose path = fs'.locate purpose path := by
  rw [Files.locate, Files.locate, h.cwd]
  simp only [h.locateWithin]

theorem placeOf? (h : fs.Alike fs') (path : List Char) : fs.placeOf? path = fs'.placeOf? path := by
  simp only [Files.placeOf?, h.locate, h.isSome_item?]

theorem put (h : fs.Alike fs') (place : Place) {item item' : Item} (hitem : item.Alike item') :
    (fs.put place item).Alike (fs'.put place item') := by
  have hsome : (fs.items.lookup place).isSome = (fs'.items.lookup place).isSome := by
    have hrel := lookup h.items place
    generalize fs.items.lookup place = found, fs'.items.lookup place = found' at hrel
    cases hrel <;> rfl
  rw [Files.put, Files.put, hsome]
  split
  · refine ⟨h.cwd, List.forall₂_map_left_iff.mpr (List.forall₂_map_right_iff.mpr ?_)⟩
    refine h.items.imp fun entry entry' hentry => ?_
    obtain ⟨p, old⟩ := entry
    obtain ⟨p', old'⟩ := entry'
    obtain ⟨rfl, hold⟩ : p = p' ∧ old.Alike old' := hentry
    dsimp only
    split
    · exact ⟨rfl, hitem⟩
    · exact ⟨rfl, hold⟩
  · exact ⟨h.cwd, List.rel_append h.items (.cons ⟨rfl, hitem⟩ .nil)⟩

theorem makeDir (h : fs.Alike fs') (name : List Char) (place : Place) :
    Agree MadeAlike (fs.makeDir name place) (fs'.makeDir name place) := by
  have hitem := h.item? place
  rw [Files.makeDir, Files.makeDir, ← h.isSome_item?]
  generalize fs.item? place = found, fs'.item? place = found' at hitem
  cases hitem with
  | none => exact .error _
  | @some item _ hitem =>
    cases hitem with
    | file => exact .error _
    | same =>
      cases item with
      | file => exact .error _
      | link => exact .error _
      | directory =>
        dsimp only
        split
        · exact .error _
        split
        · exact .error _
        · exact .ok ⟨h.put _ (.same .directory), rfl⟩

theorem ensureDir (h : fs.Alike fs') (path name : List Char) (dir : Except Refusal Place) :
    DirectoryAlike MadeAlike (fs.ensureDir path name dir) (fs'.ensureDir path name dir) := by
  rw [Files.ensureDir, Files.ensureDir]
  split
  · exact .failed _ h
  have hmade : Agree MadeAlike
      (if isOverlong path then .error .nameTooLong else dir.bind (fs.makeDir name))
      (if isOverlong path then .error .nameTooLong else dir.bind (fs'.makeDir name)) := by
    split
    · exact .error _
    cases dir with
    | error r => exact .error _
    | ok place => exact h.makeDir name place
  generalize (if isOverlong path then Except.error Refusal.nameTooLong
    else dir.bind (fs.makeDir name)) = made at hmade ⊢
  generalize (if isOverlong path then Except.error Refusal.nameTooLong
    else dir.bind (fs'.makeDir name)) = made' at hmade ⊢
  cases hmade with
  | ok hmade => exact .made hmade
  | error r =>
    rw [← h.placeOf? path]
    cases fs.placeOf? path with
    | none => exact .failed _ h
    | some place =>
      simp only [h.directory_iff place]
      split
      · exact .made ⟨h, rfl⟩
      · exact .failed _ h

theorem makeDirsUp (h : fs.Alike fs') (slashes : List Char) (names : List (List Char)) :
    DirectoryAlike MadeAlike (fs.makeDirsUp slashes names) (fs'.makeDirsUp slashes names) := by
  induction names with
  | nil => exact .made ⟨h, rfl⟩
  | cons name above ih =>
    rw [Files.makeDirsUp, Files.makeDirsUp]
    simp only [← h.placeOf?]
    cases fs.placeOf? (slashes ++ Path.join above.reverse) with
    | some place => exact h.ensureDir _ name _
    | none =>
      generalize fs.makeDirsUp slashes above = made at ih ⊢
      generalize fs'.makeDirsUp slashes above = made' at ih ⊢
      cases ih with
      | @made made made' hmade =>
        obtain ⟨fs, place⟩ := made
        obtain ⟨fs', place'⟩ := made'
        obtain ⟨hfiles, rfl⟩ := hmade
        exact ensureDir hfiles _ name _
      | @failed e fs fs' hfiles =>
        cases e with
        | nullInPath => exact .failed _ hfiles
        | refused e =>
          obtain ⟨r, path⟩ := e
          cases r with
          | occupied =>
            dsimp only
            rw [← hfiles.locate]
            exact ensureDir hfiles _ name _
          | _ => exact .failed _ hfiles

theorem makeDirs (h : fs.Alike fs') (path : List Char) :
    DirectoryAlike Alike (fs.makeDirs path) (fs'.makeDirs path) := by
  have hmade := h.makeDirsUp (Path.leading path) ((Path.parts path).filter (· ≠ [])).reverse
  rw [Files.makeDirs, Files.makeDirs]
  generalize fs.makeDirsUp _ _ = made at hmade ⊢
  generalize fs'.makeDirsUp _ _ = made' at hmade ⊢
  cases hmade with
  | made hmade => exact .made hmade.1
  | failed e hfiles => exact .failed e hfiles

theorem write (h : fs.Alike fs') (path : List Char) {content content' : Content}
    (hcontent : content.Alike content') :
    Agree Alike (fs.write path content) (fs'.write path content') := by
  rw [Files.write, Files.write, ← h.locate]
  cases fs.locate .makeFile path with
  | error r => exact .error _
  | ok place =>
    simp only [h.directory_iff place]
    split
    · exact .error _
    · exact .ok (h.put place (.file hcontent))

/-- What is read is the same, or the text of objects that differ in their descriptions only. -/
theorem read (h : fs.Alike fs') (path : List Char) :
    Agree (fun bytes bytes' => bytes = bytes' ∨ ∃ v v' : Json, v.SameBut "descriptions" v' ∧
      bytes = Utf8.encode v.print.toList ∧ bytes' = Utf8.encode v'.print.toList)
      (fs.read path) (fs'.read path) := by
  simp only [Files.read, find, ← h.locate]
  cases fs.locate .lookUp path with
  | error r => exact .error _
  | ok place =>
    have hitem := h.item? place
    dsimp only [bind, Except.bind]
    generalize fs.item? place = found, fs'.item? place = found' at hitem
    cases hitem with
    | none => exact .error _
    | @some item _ hitem =>
      cases hitem with
      | same =>
        cases item with
        | directory => exact .error _
        | link => exact .error _
        | file content => cases content <;> exact .ok (.inl rfl)
      | @file content _ hcontent =>
        cases hcontent with
        | same => cases content <;> exact .ok (.inl rfl)
        | json hjson => exact .ok (.inr ⟨_, _, hjson, rfl, rfl⟩)

end Alike
end Files
end Batch
end Flowchart
