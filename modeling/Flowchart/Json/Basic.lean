/-! JSON values whose members keep their order. -/
namespace Flowchart

inductive Json where
  | null
  | bool (b : Bool)
  | int (n : Int)
  | str (s : String)
  | arr (items : List Json)
  | obj (members : List (String × Json))
  deriving Repr, Inhabited

namespace Json

def nat (n : Nat) : Json :=
  int n

/-- A text, or null where there is none. -/
def strOrNull (s : Option String) : Json :=
  s.elim null str

end Json
end Flowchart
