import Flowchart.Chart

/-! A chart's object that is printed up to a description is the beginning of the whole object,
whatever comes after. -/
namespace Flowchart

namespace Json

theorem printMembers_append (level : Nat) (ms ms' : List (String × Json)) :
    printMembers level (ms ++ ms') = printMembers level ms ++ printMembers level ms' := by
  induction ms with
  | nil => rfl
  | cons m ms ih =>
    obtain ⟨key, v⟩ := m
    rw [List.cons_append, printMembers, ih, printMembers, List.cons_append]

theorem intercalate_append_cons (separator item : String) (before after : List String) :
    ∃ rest, separator.intercalate (before ++ item :: after) =
      String.join (before.map (· ++ separator)) ++ (item ++ rest) := by
  induction before with
  | nil =>
    cases after with
    | nil =>
      refine ⟨"", ?_⟩
      rw [List.nil_append, String.intercalate_singleton, List.map_nil, String.join_nil,
        String.empty_append, String.append_empty]
    | cons next after =>
      refine ⟨separator ++ separator.intercalate (next :: after), ?_⟩
      rw [List.nil_append, String.intercalate_cons_cons, List.map_nil, String.join_nil,
        String.empty_append, String.append_assoc]
  | cons first before ih =>
    obtain ⟨rest, hrest⟩ := ih
    refine ⟨rest, ?_⟩
    rw [List.cons_append, String.intercalate_cons_of_ne_nil (by simp), hrest, List.map_cons,
      String.join_cons, String.append_assoc]
    simp only [String.append_assoc]

/-- An object begins with the members in front of one of its keys. -/
theorem printAt_obj (level : Nat) (before : List (String × Json)) (key : String) (v : Json)
    (after : List (String × Json)) :
    ∃ rest, printAt level (.obj (before ++ (key, v) :: after)) =
      printUpTo level before key ++ (printAt (level + 1) v ++ rest) := by
  have hitems : printMembers (level + 1) (before ++ (key, v) :: after) =
      printMembers (level + 1) before ++
        (quote key ++ ": " ++ printAt (level + 1) v) :: printMembers (level + 1) after := by
    rw [printMembers_append, printMembers]
  obtain ⟨rest, hrest⟩ := intercalate_append_cons ("," ++ newline (level + 1))
    (quote key ++ ": " ++ printAt (level + 1) v) (printMembers (level + 1) before)
    (printMembers (level + 1) after)
  refine ⟨rest ++ (newline level ++ "\x7d"), ?_⟩
  rw [printAt, enclose, hitems, if_neg (by simp), hrest, printUpTo]
  simp only [String.append_assoc]

end Json

/-- With any description in its place, and any others behind it, the beginning is the same. -/
theorem Chart.printUpTo_prefix (c : Chart) (fileName : String) (before : List (String × String))
    (id text : String) (after : List (String × String)) :
    (c.printUpTo fileName before id).toList <+:
      (c.toJson fileName (before ++ (id, text) :: after)).print.toList := by
  let value (entry : String × String) : String × Json := (entry.1, .str entry.2)
  obtain ⟨outer, houter⟩ := Json.printAt_obj 0 (c.members fileName) "descriptions"
    (.obj ((before ++ (id, text) :: after).map value))
    [("feedback", .strOrNull (c.problem.map Mermaid.Problem.message))]
  obtain ⟨inner, hinner⟩ := Json.printAt_obj 1 (before.map value) id (.str text) (after.map value)
  rw [List.map_append, List.map_cons] at houter
  have hprint : (c.toJson fileName (before ++ (id, text) :: after)).print =
      c.printUpTo fileName before id ++ (Json.printAt 2 (.str text) ++ inner ++ outer) := by
    rw [Json.print, Chart.toJson, Chart.printUpTo, List.map_append, List.map_cons]
    refine houter.trans ?_
    rw [hinner]
    simp only [String.append_assoc]
    rfl
  rw [hprint, String.toList_append]
  exact List.prefix_append ..

end Flowchart
