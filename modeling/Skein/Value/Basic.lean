import Skein.Number.Layout
import Skein.Value.Selection

set_option autoImplicit false

/-!
# Value: the dynamic value

The value that story logic computes with: a truth value, a 64-bit integer, a double, a
text or a list.  Truth values count as the integers 0 and 1 wherever a number is
wanted, and a list counts as its largest item value.
-/

namespace Skein

/-- A value of story logic. -/
inductive Value where
  | bool (b : Bool)
  | int (n : Int64)
  | float (x : Float)
  | string (s : String)
  | list (l : Selection)
  deriving DecidableEq

/-- The kind of a value. -/
inductive Kind where
  | bool
  | int
  | float
  | string
  | list
  deriving DecidableEq, Repr

/-- The name of a kind in messages. -/
def Kind.text : Kind → String
  | .bool => "bool"
  | .int => "int"
  | .float => "float"
  | .string => "string"
  | .list => "list"

/-- A number: the form in which truth values, integers and doubles meet. -/
inductive Numeric where
  | int (n : Int64)
  | float (x : Float)
  deriving DecidableEq

/-- The number as a double, rounded to nearest. -/
def Numeric.toFloat : Numeric → Float
  | .int n => n.toFloat
  | .float x => x

/-- A truth value as an integer. -/
def bitOf (b : Bool) : Int64 := if b then 1 else 0

namespace Value

/-- The kind of a value. -/
def kind : Value → Kind
  | .bool _ => .bool
  | .int _ => .int
  | .float _ => .float
  | .string _ => .string
  | .list _ => .list

/-- Whether a value counts as true: it is not false, zero or empty.  Not-a-number
counts as true. -/
def isTruthy : Value → Bool
  | .bool b => b
  | .int n => n ≠ 0
  | .float x => x != 0.0
  | .string s => !s.isEmpty
  | .list l => !l.isEmpty

/-- The number that a truth value, an integer or a double is. -/
def numeric? : Value → Option Numeric
  | .bool b => some (.int (bitOf b))
  | .int n => some (.int n)
  | .float x => some (.float x)
  | .string _ => none
  | .list _ => none

/-- Whether a value is a truth value, an integer or a double. -/
def isNumeric (v : Value) : Bool := v.numeric?.isSome

/-- The integer view: a double is truncated and held within 64 bits. -/
def asInt? : Value → Option Int64
  | .bool b => some (bitOf b)
  | .int n => some n
  | .float x => some x.toInt64
  | .string _ => none
  | .list l => some l.value

/-- The double view. -/
def asFloat? : Value → Option Float
  | .bool b => some (bitOf b).toFloat
  | .int n => some n.toFloat
  | .float x => some x
  | .string _ => none
  | .list l => some l.value.toFloat

/-- The text shown for a value. -/
def text : Value → String
  | .bool b => if b then "true" else "false"
  | .int n => toString n
  | .float x => Number.Layout.plain.write x
  | .string s => s
  | .list l => l.text

/-- Whether two values are the same: of one kind and equal in it.  Not-a-number is the
same as nothing, the two zeros are the same, and lists are the same when they hold the
same items. -/
def same : Value → Value → Bool
  | .bool a, .bool b => a = b
  | .int a, .int b => a = b
  | .float x, .float y => x == y
  | .string s, .string t => s = t
  | .list l, .list m => l.sameItems m
  | _, _ => false

end Value

end Skein
