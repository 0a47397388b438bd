import Skein.Value.Registry

set_option autoImplicit false

/-!
# Value: lists

A list value is a selection: a set of items together with the definitions, its
origins, that it may draw from.  The origins give even an empty list a universe to be
completed or inverted in.  Two lists are the same value when they hold the same items.
-/

namespace Skein

/-- A set of items and the definitions they may be drawn from. -/
structure Selection where
  items : Ascending Item
  origins : Ascending DefinitionId
  deriving DecidableEq, Inhabited

/-- The sum of two 64-bit integers, held at the nearer end of the range when it leaves
it. -/
def saturatingAdd (a b : Int64) : Int64 :=
  Int64.ofInt (max Int64.minValue.toInt (min Int64.maxValue.toInt (a.toInt + b.toInt)))

namespace Selection

/-- No items and no origins. -/
def empty : Selection := { items := ∅, origins := ∅ }

/-- One item, with its origin. -/
def ofItem (item : Item) : Selection :=
  { items := .singleton item, origins := .singleton item.origin }

/-- The given items, with their origins. -/
def ofItems (items : List Item) : Selection :=
  { items := .ofList items, origins := .ofList (items.map (·.origin)) }

/-- One more origin, and no more items. -/
def withOrigin (s : Selection) (origin : DefinitionId) : Selection :=
  { s with origins := s.origins.insert origin }

/-- Whether two lists hold the same items. -/
def sameItems (s t : Selection) : Bool := s.items = t.items

/-- Whether the list has no items. -/
def isEmpty (s : Selection) : Bool := s.items.isEmpty

/-- The number of items. -/
def size (s : Selection) : Nat := s.items.size

/-- The item with the smallest value. -/
def minItem? (s : Selection) : Option Item := s.items.least?

/-- The item with the largest value. -/
def maxItem? (s : Selection) : Option Item := s.items.greatest?

/-- The largest value, or zero for an empty list. -/
def value (s : Selection) : Int64 :=
  match s.maxItem? with
  | some item => item.value
  | none => 0

/-- The labels in ascending order, with commas between them. -/
def text (s : Selection) : String :=
  ", ".intercalate (s.items.toList.map (·.label))

/-! ## Set operations -/

/-- Items of either list; origins of both. -/
def union (s t : Selection) : Selection :=
  { items := s.items.union t.items, origins := s.origins.union t.origins }

/-- Items of the first list that are not in the second; origins of the first. -/
def difference (s t : Selection) : Selection :=
  { s with items := s.items.difference t.items }

/-- Items of both lists; origins of both. -/
def intersection (s t : Selection) : Selection :=
  { items := s.items.intersection t.items, origins := s.origins.union t.origins }

/-- Whether every item of the second list is in the first. -/
def contains (s t : Selection) : Bool := s.items.includes t.items

/-- The items whose value lies between two bounds, both included. -/
def range (s : Selection) (low high : Int64) : Selection :=
  { s with items := s.items.filter fun item => low ≤ item.value && item.value ≤ high }

/-- At most one item, with the origins of the list. -/
def only (s : Selection) (item : Option Item) : Selection :=
  { s with items := match item with | some i => .singleton i | none => ∅ }

/-- The smallest item alone. -/
def minList (s : Selection) : Selection := s.only s.minItem?

/-- The largest item alone. -/
def maxList (s : Selection) : Selection := s.only s.maxItem?

/-! ## Operations within the origins -/

/-- The items of every origin, in the order of the origins. -/
def drawable (registry : Registry) : List DefinitionId → Except ValueFault (List Item)
  | [] => .ok []
  | origin :: rest => do
    let d ← registry.require origin
    let later ← drawable registry rest
    return d.items ++ later

/-- Every item of every origin. -/
def allPossible (s : Selection) (registry : Registry) : Except ValueFault Selection := do
  let items ← drawable registry s.origins.toList
  return { s with items := .ofList items }

/-- Every item of the origins that the list does not hold. -/
def inverse (s : Selection) (registry : Registry) : Except ValueFault Selection := do
  let all ← s.allPossible registry
  return all.difference s

/-- The items that lie `steps` above the given ones in their own definitions; an item
without such a neighbour is dropped. -/
def shifted (registry : Registry) (steps : Int64) : List Item → Except ValueFault (List Item)
  | [] => .ok []
  | item :: rest => do
    let d ← registry.require item.origin
    let later ← shifted registry steps rest
    return (d.itemWithValue? (saturatingAdd item.value steps)).toList ++ later

/-- Every item moved by a number of steps in value. -/
def shift (s : Selection) (steps : Int64) (registry : Registry) : Except ValueFault Selection := do
  let items ← shifted registry steps s.items.toList
  return { s with items := .ofList items }

/-! ## Order -/

/-- Every item of the first list is below every item of the second. -/
def below (s t : Selection) : Bool :=
  match s.maxItem?, t.minItem? with
  | some high, some low => high.value < low.value
  | _, _ => false

/-- Every item of the first list is above every item of the second. -/
def above (s t : Selection) : Bool :=
  match s.minItem?, t.maxItem? with
  | some low, some high => low.value > high.value
  | _, _ => false

/-- The smallest and the largest value. -/
def bounds? (s : Selection) : Option (Int64 × Int64) :=
  match s.minItem?, s.maxItem? with
  | some low, some high => some (low.value, high.value)
  | _, _ => none

/-- Neither bound of the first list exceeds the matching bound of the second. -/
def atMost (s t : Selection) : Bool :=
  match s.bounds?, t.bounds? with
  | some (sLow, sHigh), some (tLow, tHigh) => sHigh ≤ tHigh && sLow ≤ tLow
  | _, _ => false

/-- Neither bound of the first list is below the matching bound of the second. -/
def atLeast (s t : Selection) : Bool :=
  match s.bounds?, t.bounds? with
  | some (sLow, sHigh), some (tLow, tHigh) => sLow ≥ tLow && sHigh ≥ tHigh
  | _, _ => false

end Selection

/-! ## Lists against a registry -/

namespace Registry

/-- Checks one item against its definition. -/
def checkItem (r : Registry) (item : Item) : Except ValueFault Unit := do
  let d ← r.require item.origin
  match d.item? item.label with
  | none => .error (.unknownItem d.name item.label)
  | some registered =>
    if registered.value = item.value then .ok ()
    else .error (.itemValueMismatch item.origin item.label registered.value item.value)

/-- Checks items in order, up to the first that its definition does not declare with
its value. -/
def checkItems (r : Registry) : List Item → Except ValueFault Unit
  | [] => .ok ()
  | item :: rest => do
    r.checkItem item
    r.checkItems rest

/-- Checks that every item of a list stands in its definition with its value. -/
def check (r : Registry) (s : Selection) : Except ValueFault Unit :=
  r.checkItems s.items.toList

/-- The list of the one item with this value in the named definition, or the empty
list with that origin. -/
def itemByValue (r : Registry) (name : String) (value : Int64) : Except ValueFault Selection :=
  match r.byName? name with
  | none => .error (.unknownList name)
  | some d =>
    .ok (match d.itemWithValue? value with
      | some item => .ofItem item
      | none => Selection.empty.withOrigin d.id)

end Registry

end Skein
