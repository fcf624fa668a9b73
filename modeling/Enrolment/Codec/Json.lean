/-!
JSON values.
-/

namespace Enrolment

/-- A JSON value. Numbers are exact integers; any other number is only known to be one. -/
inductive Json where
  | null
  | bool (b : Bool)
  | int (n : Int)
  | real
  | text (s : String)
  | list (items : List Json)
  | object (members : List (String × Json))
deriving Inhabited

end Enrolment
