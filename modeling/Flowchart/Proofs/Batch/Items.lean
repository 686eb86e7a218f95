import Flowchart.Batch.Files
import Flowchart.Proofs.Batch.PathParts
import Mathlib.Data.List.Nodup

/-! What there is at a place, and how it changes when items are put. -/
namespace Flowchart.Batch

/-- The item without the content that a file has. -/
def Item.outline : Item → Item
  | .file _ => .file (.text "")
  | item => item

@[simp] theorem Item.outline_eq_directory {item : Item} :
    item.outline = .directory ↔ item = .directory := by
  cases item <;> simp [outline]

@[simp] theorem Item.outline_eq_link {item : Item} {target : List Char} :
    item.outline = .link target ↔ item = .link target := by
  cases item <;> simp [outline]

namespace Files

/-- No place has two items, and the parts of places are names. -/
structure WellFormed (fs : Files) : Prop where
  nodup : (fs.items.map (·.1)).Nodup
  isName : ∀ place ∈ fs.items.map (·.1), ∀ name ∈ place, Path.IsName name

@[simp] theorem item?_root (fs : Files) : fs.item? [] = some .directory := rfl

@[simp] theorem cwd_put (fs : Files) (place : Place) (item : Item) :
    (fs.put place item).cwd = fs.cwd := by
  rw [put]
  split <;> rfl

private theorem lookup_map_put (items : List (Place × Item)) (place q : Place) (item : Item) :
    (items.map fun (p, i) => if p = place then (p, item) else (p, i)).lookup q =
      if q = place then (items.lookup q).map fun _ => item else items.lookup q := by
  induction items with
  | nil => simp
  | cons entry rest ih =>
    obtain ⟨p, i⟩ := entry
    rw [List.map_cons, List.lookup_cons, ih]
    by_cases hp : p = place
    · subst hp
      by_cases hq : q = p
      · simp [hq]
      · have hne : (q == p) = false := beq_eq_false_iff_ne.mpr hq
        simp [List.lookup_cons, hq, hne]
    · by_cases hq : q = p
      · subst hq
        simp [hp]
      · have hne : (q == p) = false := beq_eq_false_iff_ne.mpr hq
        simp [List.lookup_cons, hp, hne]

theorem item?_put (fs : Files) {place : Place} (hne : place ≠ []) (item : Item) (q : Place) :
    (fs.put place item).item? q = if q = place then some item else fs.item? q := by
  by_cases hq : q = []
  · subst hq
    rw [if_neg (Ne.symm hne), item?_root, item?_root]
  · simp only [item?, if_neg hq, put]
    split
    · rename_i hsome
      rw [lookup_map_put]
      split
      · rename_i heq
        obtain ⟨old, hold⟩ := Option.isSome_iff_exists.mp (heq ▸ hsome)
        rw [hold, Option.map_some]
      · rfl
    · rename_i hnone
      rw [List.lookup_append]
      split
      · rename_i heq
        rw [heq, Option.not_isSome_iff_eq_none.mp hnone]
        simp
      · rename_i hplace
        have hbeq : (q == place) = false := beq_eq_false_iff_ne.mpr hplace
        simp [List.lookup_cons, hbeq]

theorem places_put (fs : Files) (place : Place) (item : Item) :
    (fs.put place item).items.map (·.1) =
      if (fs.items.lookup place).isSome then fs.items.map (·.1)
      else fs.items.map (·.1) ++ [place] := by
  rw [put]
  split
  · rw [List.map_map]
    refine List.map_congr_left fun entry _ => ?_
    simp only [Function.comp_apply]
    split <;> rfl
  · exact List.map_append ..

theorem mem_places_iff {fs : Files} {place : Place} :
    place ∈ fs.items.map (·.1) ↔ (fs.items.lookup place).isSome := by
  rw [List.lookup_isSome_iff, List.mem_map]
  exact exists_congr fun entry => and_congr_right fun _ => by rw [beq_iff_eq, eq_comm]

theorem nodup_put {fs : Files} (h : (fs.items.map (·.1)).Nodup) (place : Place) (item : Item) :
    ((fs.put place item).items.map (·.1)).Nodup := by
  rw [places_put]
  split
  · exact h
  · rename_i hnone
    rw [← mem_places_iff] at hnone
    exact List.nodup_append.mpr ⟨h, List.nodup_singleton place, fun p hp q hq heq =>
      hnone (List.mem_singleton.mp hq ▸ heq ▸ hp)⟩

private theorem dropLast_getLast? {p place : Place} {name : List Char} (hdrop : p.dropLast = place)
    (hlast : p.getLast? = some name) : p = place ++ [name] := by
  obtain ⟨start, rfl⟩ := List.getLast?_eq_some_iff.mp hlast
  rw [← hdrop, List.dropLast_concat]

theorem mem_listing_iff {fs : Files} {place : Place} {name : List Char} :
    name ∈ fs.listing place ↔ (fs.item? (place ++ [name])).isSome := by
  have hne : place ++ [name] ≠ [] := List.concat_ne_nil name place
  rw [listing, List.mem_filterMap, item?, if_neg hne, ← mem_places_iff]
  constructor
  · rintro ⟨p, hp, hlast⟩
    obtain ⟨hp, hinside⟩ := List.mem_filter.mp hp
    rw [Bool.and_eq_true, decide_eq_true_eq, decide_eq_true_eq] at hinside
    rwa [← dropLast_getLast? hinside.2 hlast]
  · intro hp
    exact ⟨place ++ [name], List.mem_filter.mpr ⟨hp, by simp [hne]⟩, List.getLast?_concat⟩

theorem mem_namesIn_iff {fs : Files} {place : Place} {name : List Char} :
    name ∈ fs.namesIn place ↔ (fs.item? (place ++ [name])).isSome :=
  List.mem_mergeSort.trans mem_listing_iff

theorem nodup_listing {fs : Files} (h : (fs.items.map (·.1)).Nodup) (place : Place) :
    (fs.listing place).Nodup := by
  have hinside : ((fs.items.map (·.1)).filter fun p => p ≠ [] && p.dropLast = place).Nodup :=
    h.filter _
  refine List.pairwise_filterMap.mpr (hinside.imp_of_mem fun {p q} hp hq hne a ha b hb hab => ?_)
  subst hab
  obtain ⟨-, hp⟩ := List.mem_filter.mp hp
  obtain ⟨-, hq⟩ := List.mem_filter.mp hq
  rw [Bool.and_eq_true, decide_eq_true_eq, decide_eq_true_eq] at hp hq
  exact hne ((dropLast_getLast? hp.2 ha).trans (dropLast_getLast? hq.2 hb).symm)

theorem nodup_namesIn {fs : Files} (h : (fs.items.map (·.1)).Nodup) (place : Place) :
    (fs.namesIn place).Nodup :=
  List.nodup_mergeSort.mpr (nodup_listing h place)

/-- The second files have all that the first ones have, except that a file may have got another
content. -/
structure Grows (fs fs' : Files) : Prop where
  cwd : fs'.cwd = fs.cwd
  nodup : (fs.items.map (·.1)).Nodup → (fs'.items.map (·.1)).Nodup
  item? : ∀ {place item}, fs.item? place = some item →
    ∃ item', fs'.item? place = some item' ∧ item'.outline = item.outline

namespace Grows

theorem refl (fs : Files) : Grows fs fs :=
  ⟨rfl, id, fun h => ⟨_, h, rfl⟩⟩

theorem trans {fs fs' fs'' : Files} (h : Grows fs fs') (h' : Grows fs' fs'') : Grows fs fs'' where
  cwd := h'.cwd.trans h.cwd
  nodup := h'.nodup ∘ h.nodup
  item? := fun hitem => by
    obtain ⟨item', hitem', heq⟩ := h.item? hitem
    obtain ⟨item'', hitem'', heq'⟩ := h'.item? hitem'
    exact ⟨item'', hitem'', heq'.trans heq⟩

/-- Items are put where there is none, and files in place of files. -/
theorem put {fs : Files} {place : Place} {item : Item} (hne : place ≠ [])
    (h : ∀ old, fs.item? place = some old → item.outline = old.outline) :
    Grows fs (fs.put place item) where
  cwd := fs.cwd_put place item
  nodup := fun hnodup => nodup_put hnodup place item
  item? := fun {q old} hold => by
    rw [item?_put fs hne]
    split
    · rename_i heq
      exact ⟨item, rfl, h old (heq ▸ hold)⟩
    · exact ⟨old, hold, rfl⟩

theorem directory {fs fs' : Files} (h : Grows fs fs') {place : Place}
    (hdir : fs.item? place = some .directory) : fs'.item? place = some .directory := by
  obtain ⟨item', hitem', heq⟩ := h.item? hdir
  rwa [Item.outline_eq_directory.mp heq] at hitem'

theorem link {fs fs' : Files} (h : Grows fs fs') {place : Place} {target : List Char}
    (hlink : fs.item? place = some (.link target)) : fs'.item? place = some (.link target) := by
  obtain ⟨item', hitem', heq⟩ := h.item? hlink
  rwa [Item.outline_eq_link.mp heq] at hitem'

end Grows

/-- The second files have all that the first ones have, just as it is. -/
structure Keeps (fs fs' : Files) : Prop where
  cwd : fs'.cwd = fs.cwd
  nodup : (fs.items.map (·.1)).Nodup → (fs'.items.map (·.1)).Nodup
  item? : ∀ {place item}, fs.item? place = some item → fs'.item? place = some item

namespace Keeps

variable {fs fs' fs'' : Files}

theorem refl (fs : Files) : Keeps fs fs :=
  ⟨rfl, id, id⟩

theorem trans (h : Keeps fs fs') (h' : Keeps fs' fs'') : Keeps fs fs'' :=
  ⟨h'.cwd.trans h.cwd, h'.nodup ∘ h.nodup, h'.item? ∘ h.item?⟩

theorem put {place : Place} (item : Item) (hne : place ≠ []) (hnone : fs.item? place = none) :
    Keeps fs (fs.put place item) where
  cwd := fs.cwd_put place item
  nodup := fun hnodup => nodup_put hnodup place item
  item? := fun {q old} hold => by
    have hother : q ≠ place := by
      rintro rfl
      cases hnone.symm.trans hold
    rw [item?_put fs hne, if_neg hother, hold]

theorem grows (h : Keeps fs fs') : Grows fs fs' :=
  ⟨h.cwd, h.nodup, fun hitem => ⟨_, h.item? hitem, rfl⟩⟩

end Keeps
end Files
end Flowchart.Batch
