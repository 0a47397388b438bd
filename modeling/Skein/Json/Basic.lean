set_option autoImplicit false

/-!
# Json: documents

A document as a tree.  Fields keep their order and may repeat, since a reader of
records has to notice a repeated field.  Whole numbers are kept apart from all other
numbers, which no story record takes and which are kept as they were written.
-/

namespace Skein

/-- A document. -/
inductive Json where
  | null
  | bool (b : Bool)
  | int (n : Int)
  /-- A number that is not a whole number of 64 bits, as written. -/
  | real (literal : String)
  | string (s : String)
  | array (items : List Json)
  | object (fields : List (String × Json))
  deriving Inhabited

end Skein
