import Flowchart.Proofs.Batch.Items
import Flowchart.Proofs.Batch.PathParts

/-! Where paths lead. -/
namespace Flowchart.Batch.Files

/-- A name by which a path goes down. -/
structure IsStep (name : List Char) : Prop where
  nonempty : name ≠ []
  ne_dot : name ≠ ['.']
  ne_dots : name ≠ ['.', '.']
  short : (Utf8.encode name).length ≤ nameLimit

/-- The parts lead from a place to another one, through at most `links` links and by way of what is
there. -/
inductive Leads (fs : Files) : Nat → Place → List (List Char) → Place → Prop
  | here {links place} : Leads fs links place [] place
  | stay {links place name rest target} : fs.item? place = some .directory →
      name = [] ∨ name = ['.'] → Leads fs links place rest target →
      Leads fs links place (name :: rest) target
  | up {links place rest target} : fs.item? place = some .directory →
      Leads fs links place.dropLast rest target → Leads fs links place (['.', '.'] :: rest) target
  | down {links place name rest item target} : fs.item? place = some .directory → IsStep name →
      fs.item? (place ++ [name]) = some item → (∀ text, item ≠ .link text) →
      Leads fs links (place ++ [name]) rest target → Leads fs links place (name :: rest) target
  | jump {links place name rest text target} : fs.item? place = some .directory → IsStep name →
      fs.item? (place ++ [name]) = some (.link text) →
      Leads fs links (if Path.isAbsolute text then [] else place) (Path.parts text ++ rest) target →
      Leads fs (links + 1) place (name :: rest) target

variable {fs fs' : Files} {links : Nat} {place target : Place} {ps qs : List (List Char)}

section

variable {purpose : Purpose} {jump : Place → List (List Char) → Except Refusal Place}
  {name : List Char} {rest : List (List Char)}

private theorem follow_stay (hdir : fs.item? place = some .directory)
    (hname : name = [] ∨ name = ['.']) :
    follow fs purpose jump place (name :: rest) = follow fs purpose jump place rest := by
  rw [follow, if_neg (not_not.mpr hdir), if_pos (by simpa using hname)]

private theorem follow_up (hdir : fs.item? place = some .directory) :
    follow fs purpose jump place (['.', '.'] :: rest) =
      follow fs purpose jump place.dropLast rest := by
  rw [follow, if_neg (not_not.mpr hdir), if_neg (by simp), if_pos rfl]

private theorem follow_tooLong (hdir : fs.item? place = some .directory) (hne : name ≠ [])
    (hdot : name ≠ ['.']) (hdots : name ≠ ['.', '.'])
    (hlong : nameLimit < (Utf8.encode name).length)
    (hlast : purpose = .makeFile → isLastSlash rest = false) :
    follow fs purpose jump place (name :: rest) = .error .nameTooLong := by
  rw [follow, if_neg (not_not.mpr hdir), if_neg (by simp [hne, hdot]), if_neg hdots,
    if_neg (by simpa using hlast), if_pos hlong]

private theorem follow_step (hdir : fs.item? place = some .directory) (hname : IsStep name)
    (hlast : purpose = .makeFile → isLastSlash rest = false) :
    follow fs purpose jump place (name :: rest) =
      match fs.item? (place ++ [name]) with
      | none => if rest = [] then .ok (place ++ [name]) else .error .missing
      | some (.link text) =>
        jump (if Path.isAbsolute text then [] else place) (Path.parts text ++ rest)
      | some _ => follow fs purpose jump (place ++ [name]) rest := by
  rewrite [follow, if_neg (not_not.mpr hdir), if_neg (by simp [hname.nonempty, hname.ne_dot]),
    if_neg hname.ne_dots, if_neg (by simpa using hlast), if_neg (Nat.not_lt_of_le hname.short)]
  rfl

private theorem follow_down (hdir : fs.item? place = some .directory) (hname : IsStep name)
    (hlast : purpose = .makeFile → isLastSlash rest = false) {item : Item}
    (hitem : fs.item? (place ++ [name]) = some item) (hlink : ∀ text, item ≠ .link text) :
    follow fs purpose jump place (name :: rest) =
      follow fs purpose jump (place ++ [name]) rest := by
  rw [follow_step hdir hname hlast, hitem]
  cases item with
  | link text => exact absurd rfl (hlink text)
  | directory => rfl
  | file content => rfl

/-- The ways in which a path can go on from a directory by its first part. -/
inductive Onward (fs : Files) (purpose : Purpose)
    (jump : Place → List (List Char) → Except Refusal Place) (place : Place) (name : List Char)
    (rest : List (List Char)) (target : Place) : Prop
  | stay (hname : name = [] ∨ name = ['.'])
      (h : follow fs purpose jump place rest = .ok target)
  | up (hname : name = ['.', '.']) (h : follow fs purpose jump place.dropLast rest = .ok target)
  | last (hname : IsStep name) (hitem : fs.item? (place ++ [name]) = none) (hrest : rest = [])
      (htarget : target = place ++ [name])
  | link (hname : IsStep name) (hlast : purpose = .makeFile → isLastSlash rest = false) {text}
      (hitem : fs.item? (place ++ [name]) = some (.link text))
      (h : jump (if Path.isAbsolute text then [] else place) (Path.parts text ++ rest) =
        .ok target)
  | down (hname : IsStep name) (hlast : purpose = .makeFile → isLastSlash rest = false) {item}
      (hitem : fs.item? (place ++ [name]) = some item) (hlink : ∀ text, item ≠ .link text)
      (h : follow fs purpose jump (place ++ [name]) rest = .ok target)

private theorem Onward.of_follow (hdir : fs.item? place = some .directory)
    (h : follow fs purpose jump place (name :: rest) = .ok target) :
    Onward fs purpose jump place name rest target := by
  by_cases hstay : name = [] ∨ name = ['.']
  · rw [follow_stay hdir hstay] at h
    exact .stay hstay h
  obtain ⟨hne, hdot⟩ := not_or.mp hstay
  by_cases hdots : name = ['.', '.']
  · rw [hdots, follow_up hdir] at h
    exact .up hdots h
  have hlast : purpose = .makeFile → isLastSlash rest = false := fun hpurpose => by
    by_contra hslash
    rw [follow, if_neg (not_not.mpr hdir), if_neg (by simp [hne, hdot]), if_neg hdots,
      if_pos (by simpa [hpurpose] using hslash)] at h
    cases h
  by_cases hshort : (Utf8.encode name).length ≤ nameLimit
  case neg =>
    rw [follow_tooLong hdir hne hdot hdots (Nat.lt_of_not_le hshort) hlast] at h
    cases h
  have hname : IsStep name := ⟨hne, hdot, hdots, hshort⟩
  cases hitem : fs.item? (place ++ [name]) with
  | none =>
    rw [follow_step hdir hname hlast, hitem] at h
    dsimp only at h
    split at h
    · rename_i hrest
      exact .last hname hitem hrest (Except.ok.inj h).symm
    · cases h
  | some item =>
    by_cases hlink : ∃ text, item = .link text
    · obtain ⟨text, rfl⟩ := hlink
      rw [follow_step hdir hname hlast, hitem] at h
      exact .link hname hlast hitem h
    · have hlink : ∀ text, item ≠ .link text := fun text heq => hlink ⟨text, heq⟩
      rw [follow_down hdir hname hlast hitem hlink] at h
      exact .down hname hlast hitem hlink h

/-- A path goes on from directories only. -/
theorem follow_cons_eq_ok_iff : follow fs purpose jump place (name :: rest) = .ok target ↔
    fs.item? place = some .directory ∧ Onward fs purpose jump place name rest target := by
  constructor
  · intro h
    by_cases hdir : fs.item? place = some .directory
    · exact ⟨hdir, .of_follow hdir h⟩
    · rw [follow, if_pos hdir] at h
      cases h
  · rintro ⟨hdir, h⟩
    cases h with
    | stay hname h => exact (follow_stay hdir hname).trans h
    | up hname h => rw [hname, follow_up hdir, h]
    | last hname hitem hrest htarget =>
      rw [hrest, htarget, follow_step hdir hname fun _ => rfl, hitem]
      rfl
    | link hname hlast hitem h =>
      rw [follow_step hdir hname hlast, hitem]
      exact h
    | down hname hlast hitem hlink h => exact (follow_down hdir hname hlast hitem hlink).trans h

private theorem not_makeFile (rest : List (List Char)) :
    Purpose.lookUp = .makeFile → isLastSlash rest = false := by
  intro h
  cases h

end

private theorem leads_of_follow
    (hjump : ∀ start ps, locateWithin fs .lookUp links start ps = .ok target →
      ∃ less, links = less + 1 ∧ Leads fs less start ps target)
    (h : follow fs .lookUp (locateWithin fs .lookUp links) place ps = .ok target)
    (hsome : (fs.item? target).isSome) : Leads fs links place ps target := by
  induction ps generalizing place with
  | nil =>
    obtain rfl := Except.ok.inj h
    exact .here
  | cons name rest ih =>
    obtain ⟨hdir, honward⟩ := follow_cons_eq_ok_iff.mp h
    cases honward with
    | stay hname hrest => exact .stay hdir hname (ih hrest)
    | up hname hrest =>
      subst hname
      exact .up hdir (ih hrest)
    | last _ hitem _ htarget => exact absurd hsome (by simp [htarget, hitem])
    | link hname _ hitem hrest =>
      obtain ⟨less, rfl, hless⟩ := hjump _ _ hrest
      exact .jump hdir hname hitem hless
    | down hname _ hitem hlink hrest => exact .down hdir hname hitem hlink (ih hrest)

theorem leads_of_locateWithin (h : locateWithin fs .lookUp (links + 1) place ps = .ok target)
    (hsome : (fs.item? target).isSome) : Leads fs links place ps target := by
  induction links generalizing place ps with
  | zero =>
    refine leads_of_follow (fun start ps h => ?_) h hsome
    cases h
  | succ links ih => exact leads_of_follow (fun start ps h => ⟨links, rfl, ih h⟩) h hsome

namespace Leads

theorem locateWithin (h : Leads fs links place ps target) :
    locateWithin fs .lookUp (links + 1) place ps = .ok target := by
  induction h with
  | here => rfl
  | stay hdir hname _ ih => exact (follow_stay hdir hname).trans ih
  | up hdir _ ih => exact (follow_up hdir).trans ih
  | down hdir hname hitem hlink _ ih =>
    exact (follow_down hdir hname (not_makeFile _) hitem hlink).trans ih
  | jump hdir hname hitem _ ih =>
    refine (follow_step hdir hname (not_makeFile _)).trans ?_
    rw [hitem]
    exact ih

/-- Where a path leads to stays the same when items are added. -/
theorem grows (h : Leads fs links place ps target) (hgrows : Grows fs fs') :
    Leads fs' links place ps target := by
  induction h with
  | here => exact .here
  | stay hdir hname _ ih => exact .stay (hgrows.directory hdir) hname ih
  | up hdir _ ih => exact .up (hgrows.directory hdir) ih
  | down hdir hname hitem hlink _ ih =>
    obtain ⟨item', hitem', heq⟩ := hgrows.item? hitem
    refine .down (hgrows.directory hdir) hname hitem' (fun text hlink' => ?_) ih
    subst hlink'
    exact hlink text (Item.outline_eq_link.mp heq.symm)
  | jump hdir hname hitem _ ih => exact .jump (hgrows.directory hdir) hname (hgrows.link hitem) ih

theorem append (h : Leads fs links place ps target) {last : Place}
    (hlast : ∀ links, Leads fs links target qs last) : Leads fs links place (ps ++ qs) last := by
  induction h with
  | here => exact hlast _
  | stay hdir hname _ ih => exact .stay hdir hname (ih hlast)
  | up hdir _ ih => exact .up hdir (ih hlast)
  | down hdir hname hitem hlink _ ih => exact .down hdir hname hitem hlink (ih hlast)
  | jump hdir hname hitem _ ih =>
    exact .jump hdir hname hitem (List.append_assoc .. ▸ ih hlast)

/-- A path that goes on from some of its parts passes the place that they lead to. -/
theorem exists_of_append (h : Leads fs links place (ps ++ qs) target) :
    ∃ middle less, Leads fs links place ps middle ∧ Leads fs less middle qs target := by
  generalize hall : ps ++ qs = all at h
  induction h generalizing ps with
  | @here links place =>
    obtain ⟨rfl, rfl⟩ := List.append_eq_nil_iff.mp hall
    exact ⟨place, links, .here, .here⟩
  | @stay links place name rest target hdir hname h ih =>
    rcases List.append_eq_cons_iff.mp hall with ⟨rfl, rfl⟩ | ⟨ps, rfl, rfl⟩
    · exact ⟨place, links, .here, .stay hdir hname h⟩
    · obtain ⟨middle, less, h, h'⟩ := ih rfl
      exact ⟨middle, less, .stay hdir hname h, h'⟩
  | @up links place rest target hdir h ih =>
    rcases List.append_eq_cons_iff.mp hall with ⟨rfl, rfl⟩ | ⟨ps, rfl, rfl⟩
    · exact ⟨place, links, .here, .up hdir h⟩
    · obtain ⟨middle, less, h, h'⟩ := ih rfl
      exact ⟨middle, less, .up hdir h, h'⟩
  | @down links place name rest item target hdir hname hitem hlink h ih =>
    rcases List.append_eq_cons_iff.mp hall with ⟨rfl, rfl⟩ | ⟨ps, rfl, rfl⟩
    · exact ⟨place, links, .here, .down hdir hname hitem hlink h⟩
    · obtain ⟨middle, less, h, h'⟩ := ih rfl
      exact ⟨middle, less, .down hdir hname hitem hlink h, h'⟩
  | @jump links place name rest text target hdir hname hitem h ih =>
    rcases List.append_eq_cons_iff.mp hall with ⟨rfl, rfl⟩ | ⟨ps, rfl, rfl⟩
    · exact ⟨place, links + 1, .here, .jump hdir hname hitem h⟩
    · obtain ⟨middle, less, h, h'⟩ := ih (List.append_assoc ..)
      exact ⟨middle, less, .jump hdir hname hitem h, h'⟩

/-- A path that ends with a name in a directory, at which there is no link, leads to the place of
the name, whether or not something is there. -/
theorem locateWithin_concat (h : Leads fs links place ps target)
    (hdir : fs.item? target = some .directory) {name : List Char} (hne : name ≠ [])
    (hdot : name ≠ ['.']) (hdots : name ≠ ['.', '.'])
    (hlink : ∀ text, fs.item? (target ++ [name]) ≠ some (.link text)) (purpose : Purpose) :
    Files.locateWithin fs purpose (links + 1) place (ps ++ [name]) =
      if nameLimit < (Utf8.encode name).length then .error .nameTooLong
      else .ok (target ++ [name]) := by
  have hlast (rest : List (List Char)) : isLastSlash (rest ++ [name]) = false := by
    simp [isLastSlash, hne]
  induction h with
  | here =>
    split
    · rename_i hlong
      exact follow_tooLong hdir hne hdot hdots hlong fun _ => rfl
    · rename_i hshort
      refine (follow_step hdir ⟨hne, hdot, hdots, Nat.le_of_not_lt hshort⟩ fun _ => rfl).trans ?_
      split
      · rfl
      · rename_i text hitem
        exact absurd hitem (hlink text)
      · rfl
  | stay hdir' hname _ ih => exact (follow_stay hdir' hname).trans (ih hdir hlink)
  | up hdir' _ ih => exact (follow_up hdir').trans (ih hdir hlink)
  | down hdir' hname hitem hlink' _ ih =>
    exact (follow_down hdir' hname (fun _ => hlast _) hitem hlink').trans (ih hdir hlink)
  | jump hdir' hname hitem _ ih =>
    refine (follow_step hdir' hname fun _ => hlast _).trans ?_
    rw [hitem]
    dsimp only
    rw [← List.append_assoc]
    exact ih hdir hlink

end Leads
end Flowchart.Batch.Files
