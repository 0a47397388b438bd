import Skein.Json.Basic

set_option autoImplicit false

/-!
# Json: what can be seen of a text

A reader that goes through a text from front to back meets faults in the order of the text,
and what it passes over it need not understand.  An outline keeps what such a reader can
see: all of a text up to the point where it stops to be a document, and values that may be
passed over although nothing can be made of them.
-/

namespace Skein

/-- What can be seen of a text that may be a document. -/
inductive Outline where
  | null
  | bool (b : Bool)
  | int (n : Int)
  /-- A number that is not a whole number of 64 bits, as written. -/
  | real (literal : String)
  | string (s : String)
  | array (items : List Outline)
  /-- The fields of an object; a field may have a name that cannot be read. -/
  | object (fields : List (Option String × Outline))
  /-- A value that may be passed over but not read: a string with half a pair of code
  units, or a container that is nested too deep. -/
  | unreadable
  /-- The point at which the text stops to be a document.  Nothing comes after it in any
  container. -/
  | broken
  deriving Inhabited

namespace Outline

/-! ## Levels -/

mutual

/-- The number of levels of an outline. -/
def height : Outline → Nat
  | array items => heightItems 0 items + 1
  | object fields => heightFields 0 fields + 1
  | _ => 1

/-- The greatest of a number and the heights of items. -/
def heightItems (most : Nat) : List Outline → Nat
  | [] => most
  | item :: rest => heightItems (max most item.height) rest

/-- The greatest of a number and the heights of fields. -/
def heightFields (most : Nat) : List (Option String × Outline) → Nat
  | [] => most
  | (_, value) :: rest => heightFields (max most value.height) rest

end

/-! ## Passing over -/

mutual

/-- Whether the text goes on to be a document to the end of the value, so that the value can
be passed over. -/
def isWhole : Outline → Bool
  | array items => areWhole items
  | object fields => fieldsAreWhole fields
  | broken => false
  | _ => true

/-- Whether all items are whole. -/
def areWhole : List Outline → Bool
  | [] => true
  | item :: rest => item.isWhole && areWhole rest

/-- Whether the values of all fields are whole. -/
def fieldsAreWhole : List (Option String × Outline) → Bool
  | [] => true
  | (_, value) :: rest => value.isWhole && fieldsAreWhole rest

end

/-! ## Documents -/

mutual

/-- The outline of a document. -/
def ofJson : Json → Outline
  | .null => null
  | .bool b => bool b
  | .int n => int n
  | .real literal => real literal
  | .string s => string s
  | .array items => array (ofItems [] items)
  | .object fields => object (ofFields [] fields)

/-- The outlines of items, after those already made (latest first). -/
def ofItems (done : List Outline) : List Json → List Outline
  | [] => done.reverse
  | item :: rest => ofItems (ofJson item :: done) rest

/-- The outlines of fields, after those already made (latest first). -/
def ofFields (done : List (Option String × Outline)) :
    List (String × Json) → List (Option String × Outline)
  | [] => done.reverse
  | (name, value) :: rest => ofFields ((some name, ofJson value) :: done) rest

end

mutual

/-- The document with an outline, if every part of it can be read. -/
def json? : Outline → Option Json
  | null => some .null
  | bool b => some (.bool b)
  | int n => some (.int n)
  | real literal => some (.real literal)
  | string s => some (.string s)
  | array items => (jsonItems? [] items).map .array
  | object fields => (jsonFields? [] fields).map .object
  | unreadable | broken => none

/-- The documents of items, after those already made (latest first). -/
def jsonItems? (done : List Json) : List Outline → Option (List Json)
  | [] => some done.reverse
  | item :: rest =>
    match item.json? with
    | some json => jsonItems? (json :: done) rest
    | none => none

/-- The documents of fields, after those already made (latest first). -/
def jsonFields? (done : List (String × Json)) :
    List (Option String × Outline) → Option (List (String × Json))
  | [] => some done.reverse
  | (some name, value) :: rest =>
    match value.json? with
    | some json => jsonFields? ((name, json) :: done) rest
    | none => none
  | (none, _) :: _ => none

end

end Outline

end Skein
