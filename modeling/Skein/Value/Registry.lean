import Skein.Ascending

set_option autoImplicit false

/-!
# Value: list items and their definitions

A list definition is a named, closed universe of labelled items, each with an integer
value.  Definitions are registered once, in order, and an item names the definition it
belongs to by that definition's place.
-/

namespace Skein

open Std (TransOrd LawfulEqOrd TransCmp LawfulEqCmp)

/-- The place of a definition among the registered ones. -/
structure DefinitionId where
  index : Nat
  deriving DecidableEq, Repr, Inhabited

namespace DefinitionId

instance : Ord DefinitionId := ⟨compareOn index⟩

instance : TransOrd DefinitionId := inferInstanceAs (TransCmp (compareOn index))

/-- The name under which messages mention a definition. -/
def text (id : DefinitionId) : String := "list#" ++ toString id.index

end DefinitionId

/-- One member of a list: a label, the value its definition gives it, and that
definition. -/
structure Item where
  label : String
  value : Int64
  origin : DefinitionId
  deriving DecidableEq, Inhabited

namespace Item

/-- Items are ordered by value, then by origin, then by label. -/
def order : Item → Item → Ordering :=
  compareLex (compareOn value) (compareLex (compareOn origin) (compareOn label))

instance : Ord Item := ⟨order⟩

instance : TransOrd Item :=
  inferInstanceAs
    (TransCmp (compareLex (compareOn value) (compareLex (compareOn origin) (compareOn label))))

end Item

/-! ## Causes of failure -/

/-- Why an operation on values fails. -/
inductive ValueFault where
  /-- Integer division or remainder by zero. -/
  | divideByZero
  /-- A list refers to a definition that was never registered. -/
  | unknownDefinition (id : DefinitionId)
  /-- No definition has this name. -/
  | unknownList (name : String)
  /-- The definition has no item with this label. -/
  | unknownItem (list label : String)
  /-- The item carries another value than its definition gives it. -/
  | itemValueMismatch (origin : DefinitionId) (label : String) (expected found : Int64)
  /-- A definition with this name exists already. -/
  | duplicateList (name : String)
  deriving DecidableEq

/-- The wording of a failure. -/
def ValueFault.message : ValueFault → String
  | .divideByZero => "division by zero"
  | .unknownDefinition id => "unknown list definition: " ++ id.text
  | .unknownList name => "unknown list: \"" ++ name ++ "\""
  | .unknownItem list label => "list \"" ++ list ++ "\" has no item \"" ++ label ++ "\""
  | .itemValueMismatch origin label expected found =>
    "item \"" ++ label ++ "\" of " ++ origin.text ++ " has value " ++ toString found ++
      ", expected " ++ toString expected
  | .duplicateList name => "list already defined: \"" ++ name ++ "\""

/-! ## Definitions -/

/-- A named universe of items, in declaration order. -/
structure Definition where
  id : DefinitionId
  name : String
  entries : List (String × Int64)
  deriving DecidableEq

namespace Definition

/-- The item that an entry declares. -/
def itemOf (d : Definition) (entry : String × Int64) : Item :=
  { label := entry.1, value := entry.2, origin := d.id }

/-- Every item, in declaration order. -/
def items (d : Definition) : List Item := d.entries.map d.itemOf

/-- The first item with a label. -/
def item? (d : Definition) (label : String) : Option Item :=
  (d.entries.find? fun entry => entry.1 = label).map d.itemOf

/-- The first item with a value. -/
def itemWithValue? (d : Definition) (value : Int64) : Option Item :=
  (d.entries.find? fun entry => entry.2 = value).map d.itemOf

end Definition

/-- The registered definitions, in registration order. -/
structure Registry where
  definitions : List Definition
  deriving DecidableEq, Inhabited

namespace Registry

instance : EmptyCollection Registry := ⟨⟨[]⟩⟩

/-- The definition at a place. -/
def get? (r : Registry) (id : DefinitionId) : Option Definition :=
  r.definitions[id.index]?

/-- The definition at a place, which must exist. -/
def require (r : Registry) (id : DefinitionId) : Except ValueFault Definition :=
  match r.get? id with
  | some d => .ok d
  | none => .error (.unknownDefinition id)

/-- The definition with a name. -/
def byName? (r : Registry) (name : String) : Option Definition :=
  r.definitions.find? fun d => d.name = name

/-- Whether a definition has this name. -/
def containsName (r : Registry) (name : String) : Bool := (r.byName? name).isSome

/-- Registers a definition under a new name, at the next place. -/
def define (r : Registry) (name : String) (entries : List (String × Int64)) :
    Except ValueFault (DefinitionId × Registry) :=
  if r.containsName name then .error (.duplicateList name)
  else
    let id : DefinitionId := ⟨r.definitions.length⟩
    .ok (id, ⟨r.definitions ++ [{ id := id, name := name, entries := entries }]⟩)

/-- The item that `List.label` or a bare `label` refers to.  The reference is split at
its first dot; a bare label belongs to the first definition that declares it. -/
def findItem? (r : Registry) (reference : String) : Option Item :=
  let cs := reference.toList
  match cs.dropWhile (· ≠ '.') with
  | _ :: label =>
    (r.byName? (String.ofList (cs.takeWhile (· ≠ '.')))).bind
      fun d => d.item? (String.ofList label)
  | [] => r.definitions.findSome? fun d => d.item? reference

end Registry

end Skein
