import Flowchart.Json.Print
import Mathlib.Data.List.Basic

/-! The text of a JSON value has no line breaks but line feeds. -/
namespace Flowchart.Json

theorem return_not_mem_repr (n : Nat) : '\r' ∉ n.repr.toList := by
  intro h
  rw [Nat.repr, String.toList_ofList] at h
  exact absurd (Nat.isDigit_of_mem_toDigits (by decide) (by decide) h) (by decide)

theorem return_not_mem_toString (n : Int) : '\r' ∉ (toString n).toList := by
  cases n with
  | ofNat n => exact return_not_mem_repr n
  | negSucc n =>
    change '\r' ∉ ("-" ++ n.succ.repr).toList
    rw [String.toList_append, List.mem_append]
    exact not_or.mpr ⟨by decide, return_not_mem_repr n.succ⟩

theorem return_not_mem_hexDigits (places n : Nat) : '\r' ∉ Text.hexDigits places n := by
  have hdigit : ∀ k < 16, Nat.digitChar k ≠ '\r' := by decide
  induction places generalizing n with
  | zero => exact List.not_mem_nil
  | succ places ih =>
    rw [Text.hexDigits, List.mem_append, List.mem_singleton]
    exact not_or.mpr ⟨ih (n / 16), (hdigit (n % 16) (Nat.mod_lt n (by decide))).symm⟩

theorem return_not_mem_escapeChar (c : Char) : '\r' ∉ escapeChar c := by
  rw [escapeChar]
  split
  · rename_i hc
    rw [Bool.or_eq_true, decide_eq_true_eq, decide_eq_true_eq] at hc
    rcases hc with rfl | rfl <;> decide
  split
  · decide
  split
  · decide
  split
  · decide
  split
  · decide
  split
  · decide
  split
  · simp [return_not_mem_hexDigits]
  · rename_i hreturn _ _ _ _
    simpa using Ne.symm hreturn

theorem return_not_mem_quote (s : String) : '\r' ∉ (quote s).toList := by
  simp [quote, return_not_mem_escapeChar]

theorem return_not_mem_newline (level : Nat) : '\r' ∉ (newline level).toList := by
  simp [newline]

theorem return_not_mem_intercalate {separator : List Char} (hseparator : '\r' ∉ separator)
    {items : List (List Char)} (h : ∀ item ∈ items, '\r' ∉ item) :
    '\r' ∉ separator.intercalate items := by
  induction items with
  | nil => simp
  | cons item rest ih =>
    obtain ⟨hitem, hrest⟩ := List.forall_mem_cons.mp h
    cases rest with
    | nil => rwa [List.intercalate_singleton]
    | cons next rest =>
      rw [List.intercalate_cons_cons, List.mem_append, List.mem_append]
      exact not_or.mpr ⟨not_or.mpr ⟨hitem, hseparator⟩, ih hrest⟩

theorem return_not_mem_enclose {left right : String} {level : Nat} {items : List String}
    (hleft : '\r' ∉ left.toList) (hright : '\r' ∉ right.toList)
    (h : ∀ item ∈ items, '\r' ∉ item.toList) :
    '\r' ∉ (enclose left right level items).toList := by
  rw [enclose]
  split
  · rw [String.toList_append, List.mem_append]
    exact not_or.mpr ⟨hleft, hright⟩
  · have hline := return_not_mem_newline (level + 1)
    have hseparator : '\r' ∉ ("," ++ newline (level + 1)).toList := by
      rw [String.toList_append, List.mem_append]
      exact not_or.mpr ⟨by decide, hline⟩
    have hitems := return_not_mem_intercalate hseparator (List.forall_mem_map.mpr h)
    rw [← String.toList_intercalate] at hitems
    simp only [String.toList_append, List.mem_append, not_or]
    exact ⟨⟨⟨⟨hleft, hline⟩, hitems⟩, return_not_mem_newline level⟩, hright⟩

mutual

theorem return_not_mem_printAt (level : Nat) : (v : Json) → '\r' ∉ (printAt level v).toList
  | null => show '\r' ∉ "null".toList by decide
  | bool true => show '\r' ∉ "true".toList by decide
  | bool false => show '\r' ∉ "false".toList by decide
  | int n => return_not_mem_toString n
  | str s => return_not_mem_quote s
  | arr items =>
    return_not_mem_enclose (by decide) (by decide) (return_not_mem_printItems (level + 1) items)
  | obj members =>
    return_not_mem_enclose (by decide) (by decide) (return_not_mem_printMembers (level + 1) members)

theorem return_not_mem_printItems (level : Nat) :
    (vs : List Json) → ∀ item ∈ printItems level vs, '\r' ∉ item.toList
  | [] => fun _ h => absurd h List.not_mem_nil
  | v :: vs => List.forall_mem_cons.mpr
      ⟨return_not_mem_printAt level v, return_not_mem_printItems level vs⟩

theorem return_not_mem_printMembers (level : Nat) :
    (ms : List (String × Json)) → ∀ item ∈ printMembers level ms, '\r' ∉ item.toList
  | [] => fun _ h => absurd h List.not_mem_nil
  | (key, v) :: ms => by
    refine List.forall_mem_cons.mpr ⟨?_, return_not_mem_printMembers level ms⟩
    rw [String.toList_append, String.toList_append, List.mem_append, List.mem_append]
    exact not_or.mpr ⟨not_or.mpr ⟨return_not_mem_quote key, by decide⟩,
      return_not_mem_printAt level v⟩

end

/-- The text of a value can be read with line ends of any kind. -/
theorem return_not_mem_print (v : Json) : '\r' ∉ v.print.toList :=
  return_not_mem_printAt 0 v

end Flowchart.Json
