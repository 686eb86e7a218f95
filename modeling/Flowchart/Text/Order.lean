/-! The order of texts by code points. -/
namespace Flowchart.Text

/-- The first text stands before the second one or is the same. -/
def comesFirst : List Char → List Char → Bool
  | [], _ => true
  | _ :: _, [] => false
  | a :: s, b :: t => if a = b then comesFirst s t else a.toNat < b.toNat

theorem comesFirst_refl (s : List Char) : comesFirst s s = true := by
  induction s with
  | nil => rfl
  | cons c r ih => simp [comesFirst, ih]

end Flowchart.Text
