import Flowchart.Batch.Path
import Mathlib.Data.List.Basic

/-! The parts of a path and the path that they are joined to. -/
namespace Flowchart

theorem Text.splitAt_eq_splitOn (separator : Char) (s : List Char) :
    splitAt separator s = s.splitOn separator := by
  induction s with
  | nil => rfl
  | cons c r ih =>
    rw [splitAt, ih, List.splitOn_cons_eq_if_modifyHead]
    cases hr : r.splitOn separator with
    | nil => exact absurd hr (List.splitOn_ne_nil _ _)
    | cons p ps => simp only [List.modifyHead_cons, beq_iff_eq]

namespace Path

theorem parts_eq_splitOn (p : List Char) : parts p = p.splitOn '/' :=
  Text.splitAt_eq_splitOn '/' p

@[simp] theorem parts_nil : parts [] = [[]] := rfl

theorem parts_ne_nil (p : List Char) : parts p ≠ [] :=
  parts_eq_splitOn p ▸ List.splitOn_ne_nil '/' p

theorem parts_append_slash (p q : List Char) : parts (p ++ '/' :: q) = parts p ++ parts q := by
  simp only [parts_eq_splitOn]
  exact List.splitOn_append_cons_self p q

@[simp] theorem parts_slash (q : List Char) : parts ('/' :: q) = [] :: parts q :=
  parts_append_slash [] q

theorem parts_eq_singleton {p : List Char} (h : '/' ∉ p) : parts p = [p] :=
  (parts_eq_splitOn p).trans (List.splitOn_eq_singleton h)

theorem join_parts (p : List Char) : join (parts p) = p :=
  parts_eq_splitOn p ▸ List.intercalate_splitOn '/'

theorem parts_join {ps : List (List Char)} (h : ∀ p ∈ ps, '/' ∉ p) (hne : ps ≠ []) :
    parts (join ps) = ps :=
  (parts_eq_splitOn _).trans (List.splitOn_intercalate '/' h hne)

theorem join_concat {ps : List (List Char)} (hne : ps ≠ []) (p : List Char) :
    join (ps ++ [p]) = join ps ++ '/' :: p := by
  induction ps with
  | nil => exact absurd rfl hne
  | cons q qs ih =>
    cases qs with
    | nil => simp [join, List.intercalate_cons_cons]
    | cons r rs =>
      have ih := ih (List.cons_ne_nil r rs)
      simp only [join, List.cons_append, List.intercalate_cons_cons] at ih ⊢
      rw [ih]
      simp

theorem mem_of_mem_join {ps : List (List Char)} {c : Char} (h : c ∈ join ps) :
    c = '/' ∨ ∃ p ∈ ps, c ∈ p := by
  induction ps with
  | nil => exact absurd h List.not_mem_nil
  | cons p ps ih =>
    cases ps with
    | nil => exact .inr ⟨p, List.mem_singleton_self p, by simpa [join] using h⟩
    | cons q qs =>
      rw [join, List.intercalate_cons_cons, List.append_assoc, List.mem_append] at h
      rcases h with h | h
      · exact .inr ⟨p, List.mem_cons_self, h⟩
      · rcases List.mem_cons.mp h with h | h
        · exact .inl h
        · refine (ih h).imp_right ?_
          rintro ⟨r, hr, hc⟩
          exact ⟨r, List.mem_cons_of_mem p hr, hc⟩

theorem mem_of_mem_parts {p part : List Char} {c : Char} (hpart : part ∈ parts p) (hc : c ∈ part) :
    c ∈ p ∧ c ≠ '/' := by
  induction p generalizing part with
  | nil =>
    rw [parts_nil, List.mem_singleton] at hpart
    exact absurd (hpart ▸ hc) List.not_mem_nil
  | cons d r ih =>
    rw [parts_eq_splitOn, List.splitOn_cons_eq_if_modifyHead, ← parts_eq_splitOn] at hpart
    split at hpart
    · rcases List.mem_cons.mp hpart with rfl | hpart
      · exact absurd hc List.not_mem_nil
      · exact (ih hpart hc).imp_left (List.mem_cons_of_mem d)
    · rename_i hd
      cases hr : parts r with
      | nil => exact absurd hr (parts_ne_nil r)
      | cons q qs =>
        rw [hr, List.modifyHead_cons] at hpart
        rcases List.mem_cons.mp hpart with rfl | hpart
        · rcases List.mem_cons.mp hc with rfl | hc
          · exact ⟨List.mem_cons_self, by simpa using hd⟩
          · exact (ih (hr ▸ List.mem_cons_self) hc).imp_left (List.mem_cons_of_mem d)
        · exact (ih (hr ▸ List.mem_cons_of_mem q hpart) hc).imp_left (List.mem_cons_of_mem d)

theorem slash_not_mem_of_mem_parts {p part : List Char} (h : part ∈ parts p) : '/' ∉ part :=
  fun hc => (mem_of_mem_parts h hc).2 rfl

/-- A part of a path that is the name of something in a directory. -/
structure IsName (name : List Char) : Prop where
  nonempty : name ≠ []
  ne_dot : name ≠ ['.']
  ne_dots : name ≠ ['.', '.']
  slash_not_mem : '/' ∉ name

theorem isAbsolute_eq_false {name : List Char} (h : '/' ∉ name) : isAbsolute name = false := by
  rw [isAbsolute, decide_eq_false_iff_not]
  exact fun hhead => h (List.mem_of_mem_head? hhead)

theorem isAbsolute_append {dir : List Char} (h : dir ≠ []) (p : List Char) :
    isAbsolute (dir ++ p) = isAbsolute dir := by
  rw [isAbsolute, isAbsolute, List.head?_append_of_ne_nil _ h]

theorem isAbsolute_under {dir name : List Char} (hdir : dir ≠ []) (hname : '/' ∉ name) :
    isAbsolute (under dir name) = isAbsolute dir := by
  rw [under, if_neg (by simp [isAbsolute_eq_false hname])]
  split
  · exact isAbsolute_append hdir name
  · exact isAbsolute_append hdir _

/-- The parts of a path with one name more. A slash at the end of the path is no part of it. -/
theorem parts_under {dir name : List Char} (hdir : dir ≠ []) (hname : '/' ∉ name) :
    ∃ ps, parts (under dir name) = ps ++ [name] ∧ (parts dir = ps ∨ parts dir = ps ++ [[]]) := by
  rw [under, if_neg (by simp [isAbsolute_eq_false hname])]
  split
  · rename_i hlast
    obtain ⟨start, rfl⟩ := List.getLast?_eq_some_iff.mp (by simpa [hdir] using hlast)
    refine ⟨parts start, ?_, .inr (parts_append_slash start [])⟩
    rw [List.append_assoc, List.singleton_append, parts_append_slash, parts_eq_singleton hname]
  · exact ⟨parts dir, by rw [parts_append_slash, parts_eq_singleton hname], .inl rfl⟩

/-- A name is put below a directory by what is written before it. -/
theorem exists_under_eq (dir : List Char) :
    ∃ start, ∀ name : List Char, '/' ∉ name → under dir name = dir ++ start ++ name := by
  by_cases hdir : dir = [] || dir.getLast? = some '/'
  · refine ⟨[], fun name hname => ?_⟩
    rw [under, if_neg (by simp [isAbsolute_eq_false hname]), if_pos hdir, List.append_nil]
  · refine ⟨['/'], fun name hname => ?_⟩
    rw [under, if_neg (by simp [isAbsolute_eq_false hname]), if_neg hdir, List.append_assoc,
      List.singleton_append]

/-- An absolute path in normal form: one slash or two, then names with slashes between them. -/
def IsNormal (p : List Char) : Prop :=
  ∃ slashes names, (slashes = ['/'] ∨ slashes = ['/', '/']) ∧ (∀ name ∈ names, IsName name) ∧
    p = slashes ++ join names

section

variable {slashes : List Char} {names : List (List Char)}

theorem head?_join (h : ∀ name ∈ names, IsName name) : (join names).head? ≠ some '/' := by
  cases names with
  | nil => simp [join]
  | cons name rest =>
    obtain ⟨c, cs, hcs⟩ := List.exists_cons_of_ne_nil (h name List.mem_cons_self).nonempty
    have hslash := (h name List.mem_cons_self).slash_not_mem
    cases rest with
    | nil =>
      rw [join, List.intercalate_singleton, hcs]
      rintro ⟨⟩
      exact hslash (hcs ▸ List.mem_cons_self)
    | cons next rest =>
      rw [join, List.intercalate_cons_cons, hcs]
      rintro ⟨⟩
      exact hslash (hcs ▸ List.mem_cons_self)

theorem getLast?_join (h : ∀ name ∈ names, IsName name) : (join names).getLast? ≠ some '/' := by
  rcases List.eq_nil_or_concat names with rfl | ⟨init, last, rfl⟩
  · simp [join]
  · have hlast := h last (by simp)
    have heq : (join (init.concat last)).getLast? = last.getLast? := by
      rw [List.concat_eq_append]
      by_cases hinit : init = []
      · rw [hinit, List.nil_append, join, List.intercalate_singleton]
      · rw [join_concat hinit, ← List.singleton_append, ← List.append_assoc,
          List.getLast?_append_of_ne_nil _ hlast.nonempty]
    rw [heq]
    exact fun hc => hlast.slash_not_mem (List.mem_of_getLast? hc)

theorem leading_append (hslashes : slashes = ['/'] ∨ slashes = ['/', '/'])
    (h : ∀ name ∈ names, IsName name) : leading (slashes ++ join names) = slashes := by
  have htake : (join names).takeWhile (· = '/') = [] := by
    cases hjoin : join names with
    | nil => rfl
    | cons c cs =>
      rw [List.takeWhile_cons_of_neg]
      rintro hc
      exact head?_join h (by rw [hjoin, of_decide_eq_true hc]; rfl)
  rcases hslashes with rfl | rfl <;> simp [leading, htake]

theorem filter_parts_append (hslashes : slashes = ['/'] ∨ slashes = ['/', '/'])
    (h : ∀ name ∈ names, IsName name) :
    (parts (slashes ++ join names)).filter (· ≠ []) = names := by
  have hjoin : (parts (join names)).filter (· ≠ []) = names := by
    by_cases hnames : names = []
    · rw [hnames]
      rfl
    · rw [parts_join (fun name hname => (h name hname).slash_not_mem) hnames]
      exact List.filter_eq_self.mpr fun name hname => decide_eq_true (h name hname).nonempty
  rcases hslashes with rfl | rfl
  · rw [List.singleton_append, parts_slash]
    exact hjoin
  · rw [List.cons_append, List.singleton_append, parts_slash, parts_slash]
    exact hjoin

theorem append_join_concat (hslashes : slashes = ['/'] ∨ slashes = ['/', '/'])
    (h : ∀ name ∈ names, IsName name) {name : List Char} (hname : IsName name) :
    slashes ++ join (names ++ [name]) = under (slashes ++ join names) name := by
  rw [under, if_neg (by simp [isAbsolute_eq_false hname.slash_not_mem])]
  by_cases hnames : names = []
  · subst hnames
    rw [List.nil_append, join, List.intercalate_singleton, join, List.intercalate_nil,
      List.append_nil, if_pos]
    rcases hslashes with rfl | rfl <;> rfl
  · rw [join_concat hnames, if_neg, List.append_assoc]
    have hjoin : join names ≠ [] := by
      intro hnil
      have hparts := parts_join (fun name hname => (h name hname).slash_not_mem) hnames
      rw [hnil, parts_nil] at hparts
      exact (h [] (hparts ▸ List.mem_singleton_self [])).nonempty rfl
    rw [List.getLast?_append_of_ne_nil _ hjoin]
    simp [getLast?_join h, hjoin]

end
end Path
end Flowchart
