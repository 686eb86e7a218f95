import Flowchart.Proofs.Batch.PathParts

/-! The names on the way to a path, and the name of the outputs for a script. -/
namespace Flowchart

namespace Path

/-- The names that the parts of an absolute path come to. -/
def resolve (ps : List (List Char)) : List (List Char) :=
  (ps.foldl (push true) []).reverse

theorem push_nil (done : List (List Char)) : push true done [] = done := rfl

theorem push_name {name : List Char} (h : IsName name) (done : List (List Char)) :
    push true done name = name :: done := by
  rw [push.eq_def, if_neg (by simp [h.nonempty, h.ne_dot]), if_neg h.ne_dots]

theorem resolve_filter (ps : List (List Char)) : resolve (ps.filter (· ≠ [])) = resolve ps := by
  have hfold (done : List (List Char)) :
      (ps.filter (· ≠ [])).foldl (push true) done = ps.foldl (push true) done := by
    induction ps generalizing done with
    | nil => rfl
    | cons p rest ih =>
      by_cases hp : p = []
      · subst hp
        rw [List.filter_cons_of_neg (by simp), List.foldl_cons, push_nil, ih]
      · rw [List.filter_cons_of_pos (by simp [hp]), List.foldl_cons, List.foldl_cons, ih]
  rw [resolve, resolve, hfold]

theorem resolve_concat (ps : List (List Char)) {name : List Char} (h : IsName name) :
    resolve (ps ++ [name]) = resolve ps ++ [name] := by
  rw [resolve, resolve, List.foldl_append, List.foldl_cons, List.foldl_nil, push_name h,
    List.reverse_cons]

private theorem isName_of_mem_push {done : List (List Char)} (hdone : ∀ name ∈ done, IsName name)
    {part : List Char} (hpart : '/' ∉ part) : ∀ name ∈ push true done part, IsName name := by
  rw [push.eq_def]
  split
  · exact hdone
  · rename_i hstay
    split
    · cases done with
      | nil => simp
      | cons last rest =>
        have hlast := hdone last List.mem_cons_self
        dsimp only
        rw [if_neg hlast.ne_dots]
        exact fun name hname => hdone name (List.mem_cons_of_mem last hname)
    · rename_i hdots
      obtain ⟨hne, hdot⟩ : part ≠ [] ∧ part ≠ ['.'] := by simpa using hstay
      exact List.forall_mem_cons.mpr ⟨⟨hne, hdot, hdots, hpart⟩, hdone⟩

theorem isName_of_mem_resolve {ps : List (List Char)} (h : ∀ p ∈ ps, '/' ∉ p) :
    ∀ name ∈ resolve ps, IsName name := by
  have hfold (done : List (List Char)) (hdone : ∀ name ∈ done, IsName name) :
      ∀ name ∈ ps.foldl (push true) done, IsName name := by
    induction ps generalizing done with
    | nil => exact hdone
    | cons p rest ih =>
      exact ih (fun q hq => h q (List.mem_cons_of_mem p hq)) _
        (isName_of_mem_push hdone (h p List.mem_cons_self))
  exact fun name hname => hfold [] (by simp) name (List.mem_reverse.mp hname)

section

variable {cwd : List Char}

theorem isAbsolute_under_cwd (hcwd : isAbsolute cwd = true) (p : List Char) :
    isAbsolute (under cwd p) = true := by
  have hne : cwd ≠ [] := by
    rintro rfl
    exact absurd hcwd (by decide)
  rw [under]
  split
  · assumption
  · split
    · rw [isAbsolute_append hne, hcwd]
    · rw [isAbsolute_append hne, hcwd]

/-- An absolute path is in normal form. -/
theorem absolute_eq (hcwd : isAbsolute cwd = true) (p : List Char) :
    ∃ slashes, (slashes = ['/'] ∨ slashes = ['/', '/']) ∧
      absolute cwd p = slashes ++ join (resolve (parts (under cwd p))) := by
  have habsolute := isAbsolute_under_cwd hcwd p
  have hslashes : leading (under cwd p) = ['/'] ∨ leading (under cwd p) = ['/', '/'] := by
    rw [leading]
    split
    · rename_i hlength
      rw [List.length_eq_zero_iff] at hlength
      cases hunder : under cwd p with
      | nil => rw [hunder] at habsolute; exact absurd habsolute (by decide)
      | cons c r =>
        have hc : c = '/' := by simpa [hunder, isAbsolute] using habsolute
        rw [hunder, List.takeWhile_cons_of_pos (by simp [hc])] at hlength
        cases hlength
    · exact .inr rfl
    · exact .inl rfl
  refine ⟨leading (under cwd p), hslashes, ?_⟩
  rw [absolute, normalize, habsolute]
  split
  · rename_i hnil
    rcases hslashes with h | h <;> simp [h] at hnil
  · rfl

theorem isName_of_mem_resolve_parts (p : List Char) : ∀ name ∈ resolve (parts p), IsName name :=
  isName_of_mem_resolve fun _ => slash_not_mem_of_mem_parts

theorem isNormal_absolute (hcwd : isAbsolute cwd = true) (p : List Char) :
    IsNormal (absolute cwd p) := by
  obtain ⟨slashes, hslashes, heq⟩ := absolute_eq hcwd p
  exact ⟨slashes, _, hslashes, isName_of_mem_resolve_parts _, heq⟩

theorem names_eq (hcwd : isAbsolute cwd = true) (p : List Char) :
    names cwd p = resolve (parts (under cwd p)) := by
  obtain ⟨slashes, hslashes, heq⟩ := absolute_eq hcwd p
  rw [names, heq, filter_parts_append hslashes (isName_of_mem_resolve_parts _)]

/-- The parts of a path below a directory, except for empty ones. -/
theorem filter_parts_under (dir p : List Char) :
    (parts (under dir p)).filter (· ≠ []) =
      (if isAbsolute p then [] else (parts dir).filter (· ≠ [])) ++
        (parts p).filter (· ≠ []) := by
  rw [under]
  split
  · rfl
  · split
    · rename_i hdir
      rcases (Bool.or_eq_true ..).mp hdir with hdir | hdir
      · obtain rfl := of_decide_eq_true hdir
        rfl
      · obtain ⟨start, rfl⟩ := List.getLast?_eq_some_iff.mp (of_decide_eq_true hdir)
        rw [List.append_assoc, List.singleton_append, parts_append_slash, parts_append_slash,
          List.filter_append, List.filter_append]
        simp
    · rw [parts_append_slash, List.filter_append]

theorem names_under (hcwd : isAbsolute cwd = true) (root : List Char) {name : List Char}
    (h : IsName name) : names cwd (under root name) = names cwd root ++ [name] := by
  have hparts : (parts name).filter (· ≠ []) = [name] := by
    rw [parts_eq_singleton h.slash_not_mem, List.filter_cons_of_pos (by simp [h.nonempty]),
      List.filter_nil]
  have hname := isAbsolute_eq_false h.slash_not_mem
  have habsolute : isAbsolute (under root name) = isAbsolute root := by
    by_cases hroot : root = []
    · subst hroot
      rw [under, if_neg (by simp [hname]), if_pos (by simp)]
      exact hname
    · exact isAbsolute_under hroot h.slash_not_mem
  rw [names_eq hcwd, names_eq hcwd, ← resolve_filter, ← resolve_filter (parts (under cwd root)),
    filter_parts_under cwd, filter_parts_under cwd, habsolute, filter_parts_under root, hname,
    hparts, if_neg Bool.false_ne_true, ← List.append_assoc, resolve_concat _ h]

/-- The path that goes from another one down by names. -/
def below (root : List Char) (rel : List (List Char)) : List Char :=
  rel.foldl under root

theorem names_below (hcwd : isAbsolute cwd = true) (root : List Char) {rel : List (List Char)}
    (h : ∀ name ∈ rel, IsName name) : names cwd (below root rel) = names cwd root ++ rel := by
  induction rel generalizing root with
  | nil => exact (List.append_nil _).symm
  | cons name rest ih =>
    have hrest := fun other hother => h other (List.mem_cons_of_mem name hother)
    calc
      names cwd (below (under root name) rest) = names cwd (under root name) ++ rest :=
        ih (under root name) hrest
      _ = names cwd root ++ name :: rest := by
        rw [names_under hcwd root (h name List.mem_cons_self), List.append_assoc]
        rfl

theorem below_ne_nil (root : List Char) {rel : List (List Char)} (hne : rel ≠ [])
    (h : ∀ name ∈ rel, IsName name) : below root rel ≠ [] := by
  obtain ⟨init, last, rfl⟩ := (List.eq_nil_or_concat rel).resolve_left hne
  have hlast := h last (by simp)
  rw [List.concat_eq_append, below, List.foldl_append, List.foldl_cons, List.foldl_nil, under,
    if_neg (by simp [isAbsolute_eq_false hlast.slash_not_mem])]
  split
  · exact List.append_ne_nil_of_right_ne_nil _ hlast.nonempty
  · exact List.append_ne_nil_of_right_ne_nil _ (List.cons_ne_nil _ _)

theorem way_append (start rel : List (List Char)) : way start (start ++ rel) = rel := by
  induction start with
  | nil => cases rel <;> rfl
  | cons name start ih => rw [List.cons_append, way, if_pos rfl, ih]

/-- Seen from where it begins, a path is the names that it goes down by. -/
theorem relative?_below (hcwd : isAbsolute cwd = true) (root : List Char)
    {rel : List (List Char)} (hne : rel ≠ []) (h : ∀ name ∈ rel, IsName name) :
    relative? cwd (below root rel) root = some (join rel) := by
  rw [relative?, if_neg (below_ne_nil root hne h), names_below hcwd root h, way_append]
  split
  · exact absurd rfl hne
  · rfl

end

theorem mem_of_mem_stem {name : List Char} {c : Char} (h : c ∈ stem name) : c ∈ name := by
  simp only [stem] at h
  generalize hbody : ((name.dropWhile (· = '.')).reverse.dropWhile (· ≠ '.')).reverse = upToDot at h
  cases upToDot with
  | nil => exact h
  | cons first rest =>
    rcases List.mem_append.mp h with h | h
    · exact (List.takeWhile_sublist _).mem h
    · have h := (List.dropLast_sublist _).mem h
      rw [← hbody, List.mem_reverse] at h
      exact (List.dropWhile_sublist _).mem
        (List.mem_reverse.mp ((List.dropWhile_sublist _).mem h))

/-- The names, the last one without its extension. -/
def stemmed (rel : List (List Char)) : List (List Char) :=
  rel.dropLast ++ (rel.getLast?.map stem).toList

theorem withoutExtension_join {rel : List (List Char)} (hne : rel ≠ [])
    (h : ∀ name ∈ rel, IsName name) : withoutExtension (join rel) = join (stemmed rel) := by
  rw [withoutExtension, parts_join (fun name hname => (h name hname).slash_not_mem) hne, stemmed]

theorem mem_of_mem_stemmed {rel : List (List Char)} {name : List Char} (h : name ∈ stemmed rel)
    {c : Char} (hc : c ∈ name) : ∃ other ∈ rel, c ∈ other := by
  rcases List.mem_append.mp h with h | h
  · exact ⟨name, (List.dropLast_sublist _).mem h, hc⟩
  · obtain ⟨last, hlast, rfl⟩ := Option.map_eq_some_iff.mp (Option.mem_toList.mp h)
    exact ⟨last, List.mem_of_getLast? hlast, mem_of_mem_stem hc⟩

theorem stemmed_ne_nil {rel : List (List Char)} (hne : rel ≠ []) : stemmed rel ≠ [] := by
  obtain ⟨init, last, rfl⟩ := (List.eq_nil_or_concat rel).resolve_left hne
  simp [stemmed]

/-- Two lists of names come to the same when they lead through the same directories to names with
the same stem. -/
theorem stemmed_eq_iff {rel rel' : List (List Char)} (hne : rel ≠ []) (hne' : rel' ≠ []) :
    stemmed rel = stemmed rel' ↔
      rel.dropLast = rel'.dropLast ∧ rel.getLast?.map stem = rel'.getLast?.map stem := by
  obtain ⟨init, last, rfl⟩ := (List.eq_nil_or_concat rel).resolve_left hne
  obtain ⟨init', last', rfl⟩ := (List.eq_nil_or_concat rel').resolve_left hne'
  simp only [stemmed, List.concat_eq_append, List.dropLast_concat, List.getLast?_concat,
    Option.map_some, Option.toList_some, Option.some.injEq]
  rw [← List.concat_eq_append, ← List.concat_eq_append, List.concat_inj]

private theorem map_join {ps : List (List Char)} (h : ∀ p ∈ ps, '/' ∉ p) :
    (join ps).map (fun c => if c = '/' then '_' else c) = ['_'].intercalate ps := by
  have hpart {p : List Char} (hp : '/' ∉ p) : p.map (fun c => if c = '/' then '_' else c) = p := by
    have hsame : ∀ c ∈ p, (if c = '/' then '_' else c) = id c := fun c hc =>
      if_neg fun heq : c = '/' => hp (heq ▸ hc)
    rw [List.map_congr_left hsame, List.map_id]
  induction ps with
  | nil => rfl
  | cons p rest ih =>
    have hp := hpart (h p List.mem_cons_self)
    have ih := ih fun q hq => h q (List.mem_cons_of_mem p hq)
    cases rest with
    | nil => rwa [join, List.intercalate_singleton, List.intercalate_singleton]
    | cons q rest =>
      rw [join] at ih ⊢
      rw [List.intercalate_cons_cons, List.intercalate_cons_cons, List.map_append,
        List.map_append, hp, ih]
      rfl

end Path

namespace Batch

open Flowchart.Path

/-- The name of the outputs for a script that the names lead to. -/
def outputName (rel : List (List Char)) : String :=
  .ofList (['_'].intercalate (stemmed rel))

theorem outputBase?_below {cwd : String} (hcwd : isAbsolute cwd.toList = true) (root : List Char)
    {rel : List (List Char)} (hne : rel ≠ []) (h : ∀ name ∈ rel, IsName name) :
    outputBase? cwd (.ofList (below root rel)) (.ofList root) = some (outputName rel) := by
  rw [outputBase?, String.toList_ofList, String.toList_ofList, relative?_below hcwd root hne h,
    Option.map_some, withoutExtension_join hne h, map_join, outputName]
  intro name hname hc
  obtain ⟨other, hother, hc⟩ := mem_of_mem_stemmed hname hc
  exact (h other hother).slash_not_mem hc

/-- Names without underscores give their outputs one name just when they lead through the same
directories to the same stem. -/
theorem outputName_eq_iff {rel rel' : List (List Char)} (hne : rel ≠ []) (hne' : rel' ≠ [])
    (h : ∀ name ∈ rel, '_' ∉ name) (h' : ∀ name ∈ rel', '_' ∉ name) :
    outputName rel = outputName rel' ↔
      rel.dropLast = rel'.dropLast ∧ rel.getLast?.map stem = rel'.getLast?.map stem := by
  rw [← stemmed_eq_iff hne hne', outputName, outputName, String.ofList_inj]
  have hsplit {rel : List (List Char)} (hne : rel ≠ []) (h : ∀ name ∈ rel, '_' ∉ name) :
      (['_'].intercalate (stemmed rel)).splitOn '_' = stemmed rel :=
    List.splitOn_intercalate '_' (fun name hname hc =>
      (mem_of_mem_stemmed hname hc).elim fun other hother => h other hother.1 hother.2)
      (stemmed_ne_nil hne)
  constructor
  · intro heq
    rw [← hsplit hne h, ← hsplit hne' h', heq]
  · exact congrArg _

theorem slash_not_mem_outputBase? {cwd path root base : String}
    (h : outputBase? cwd path root = some base) : '/' ∉ base.toList := by
  obtain ⟨p, -, rfl⟩ := Option.map_eq_some_iff.mp h
  rw [String.toList_ofList]
  intro hc
  obtain ⟨c, -, hc⟩ := List.mem_map.mp hc
  split at hc
  · exact absurd hc (by decide)
  · rename_i hne
    exact hne hc

end Batch
end Flowchart
