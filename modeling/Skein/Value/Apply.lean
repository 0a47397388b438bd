import Skein.Number.Reading
import Skein.Text.Blank
import Skein.Value.Basic
import Skein.Value.Operator

set_option autoImplicit false

/-!
# Value: applying operators

What each operator yields on each pair of kinds.  Every function answers `none` where
the operator has no result for the operands.  Only integer division by zero and lists
that mention an unregistered definition are failures.
-/

namespace Skein

/-- How two doubles compare; not at all when one of them is not a number. -/
def floatOrder? (x y : Float) : Option Ordering :=
  if x < y then some .lt
  else if y < x then some .gt
  else if x == y then some .eq
  else none

namespace Binary

/-- The answer of a comparison for operands that may have no order. -/
def compared (op : Binary) (order : Option Ordering) : Option Value :=
  (order.bind op.holds?).map .bool

/-! ## Numbers -/

/-- Shifting by less than zero or by more than 63 places shifts every bit out. -/
def isShiftAmount (n : Int64) : Bool := 0 ≤ n && n < 64

/-- The integer with its bits moved to the left, zeros following. -/
def shiftedLeft (a b : Int64) : Int64 :=
  if isShiftAmount b then a <<< b else 0

/-- The integer with its bits moved to the right, copies of the sign following. -/
def shiftedRight (a b : Int64) : Int64 :=
  if isShiftAmount b then a >>> b else if a < 0 then -1 else 0

/-- Operators on two integers other than comparisons.  Sums, differences and products
wrap around; quotients are truncated toward zero. -/
def applyInt (op : Binary) (a b : Int64) : Except ValueFault (Option Value) :=
  match op with
  | add => .ok (some (.int (a + b)))
  | subtract => .ok (some (.int (a - b)))
  | multiply => .ok (some (.int (a * b)))
  | divide => if b = 0 then .error .divideByZero else .ok (some (.int (a / b)))
  | modulo => if b = 0 then .error .divideByZero else .ok (some (.int (a % b)))
  | bitAnd => .ok (some (.int (a &&& b)))
  | bitXor => .ok (some (.int (a ^^^ b)))
  | bitOr => .ok (some (.int (a ||| b)))
  | shiftLeft => .ok (some (.int (shiftedLeft a b)))
  | shiftRight => .ok (some (.int (shiftedRight a b)))
  | _ => .ok none

/-- Operators on two doubles other than comparisons. -/
def applyFloat (op : Binary) (x y : Float) : Option Value :=
  match op with
  | add => some (.float (x + y))
  | subtract => some (.float (x - y))
  | multiply => some (.float (x * y))
  | divide => some (.float (x / y))
  | modulo => some (.float (Number.remainder x y))
  | _ => none

/-- How two numbers compare: as integers if both are, else as doubles. -/
def numericOrder? : Numeric → Numeric → Option Ordering
  | .int a, .int b => some (compare a b)
  | m, n => floatOrder? m.toFloat n.toFloat

/-- Operators on two numbers: on integers if both are, else on doubles. -/
def applyNumeric (op : Binary) (m n : Numeric) : Except ValueFault (Option Value) :=
  if op.isComparison then .ok (op.compared (numericOrder? m n))
  else
    match m, n with
    | .int a, .int b => op.applyInt a b
    | m, n => .ok (op.applyFloat m.toFloat n.toFloat)

/-! ## Texts -/

/-- Whether the first text occurs in the second. -/
def occursIn (part : List Char) : List Char → Bool
  | [] => part.isEmpty
  | c :: rest => part.isPrefixOf (c :: rest) || occursIn part rest

/-- Operators on two texts. -/
def applyString (op : Binary) (s t : String) : Option Value :=
  match op with
  | add => some (.string (s ++ t))
  | contains => some (.bool (occursIn t.toList s.toList))
  | notContains => some (.bool (!occursIn t.toList s.toList))
  | _ => op.compared (some (compare s t))

/-- The number a text spells, white space around it set aside: an integer if it fits,
else a double. -/
def spelledNumber? (s : String) : Option Numeric :=
  let cs := Text.trimChars s.toList
  match Number.readInt64? cs with
  | some n => some (.int n)
  | none => (Number.readFloat? cs).map .float

/-- Comparison of a text with a number.  A text that spells no number is unequal to
every number, and neither below nor above any. -/
def applySpelled (op : Binary) (s : String) (order : Numeric → Option Ordering) :
    Option Value :=
  if op.isComparison && op ≠ contains && op ≠ notContains then
    match spelledNumber? s with
    | none => some (.bool (op = notEqual))
    | some m => op.compared (order m)
  else none

/-! ## Lists -/

/-- Operators on two lists. -/
def applyList (op : Binary) (l m : Selection) : Option Value :=
  match op with
  | add => some (.list (l.union m))
  | subtract => some (.list (l.difference m))
  | bitXor => some (.list (l.intersection m))
  | equal => some (.bool (l.sameItems m))
  | notEqual => some (.bool (!l.sameItems m))
  | less => some (.bool (l.below m))
  | greater => some (.bool (l.above m))
  | lessEq => some (.bool (l.atMost m))
  | greaterEq => some (.bool (l.atLeast m))
  | contains => some (.bool (l.contains m))
  | notContains => some (.bool (!l.contains m))
  | _ => none

/-- The steps in value that a number stands for. -/
def stepsOf : Numeric → Int64
  | .int n => n
  | .float x => x.toInt64

/-- Operators on a list and a number: moving the items, or comparing the value of the
list as a double. -/
def applyListNumeric (op : Binary) (l : Selection) (n : Numeric) (registry : Registry) :
    Except ValueFault (Option Value) :=
  match op with
  | add => do return some (.list (← l.shift (stepsOf n) registry))
  | subtract => do return some (.list (← l.shift (-stepsOf n) registry))
  | _ => .ok (op.compared (floatOrder? l.value.toFloat n.toFloat))

/-! ## All kinds -/

/-- Operators other than `and` and `or`. -/
def applyKinds (op : Binary) (lhs rhs : Value) (registry : Registry) :
    Except ValueFault (Option Value) :=
  match lhs, rhs with
  | .list l, .list m => .ok (op.applyList l m)
  | .list l, v =>
    match v.numeric? with
    | some n => op.applyListNumeric l n registry
    | none => .ok none
  | v, .list m =>
    match v.numeric? with
    | some n => .ok (op.compared (floatOrder? n.toFloat m.value.toFloat))
    | none => .ok none
  | .string s, .string t => .ok (op.applyString s t)
  | .string s, v =>
    match v.numeric? with
    | some n => .ok (op.applySpelled s fun m => numericOrder? m n)
    | none => .ok none
  | v, .string s =>
    match v.numeric? with
    | some n => .ok (op.applySpelled s fun m => numericOrder? n m)
    | none => .ok none
  | v, w =>
    match v.numeric?, w.numeric? with
    | some m, some n => op.applyNumeric m n
    | _, _ => .ok none

/-- The value of an operator on two values; none where it has no result for their
kinds. -/
def apply (op : Binary) (lhs rhs : Value) (registry : Registry) :
    Except ValueFault (Option Value) :=
  match op with
  | and => .ok (some (.bool (lhs.isTruthy && rhs.isTruthy)))
  | or => .ok (some (.bool (lhs.isTruthy || rhs.isTruthy)))
  | _ => op.applyKinds lhs rhs registry

end Binary

namespace Unary

/-- The value of an operator on one value; none where it has no result for its
kind. -/
def apply (op : Unary) (v : Value) (registry : Registry) : Except ValueFault (Option Value) :=
  match op, v with
  | not, v => .ok (some (.bool !v.isTruthy))
  | negate, .bool b => .ok (some (.int (-bitOf b)))
  | negate, .int n => .ok (some (.int (-n)))
  | negate, .float x => .ok (some (.float (-x)))
  | increment, .bool b => .ok (some (.int (bitOf b + 1)))
  | increment, .int n => .ok (some (.int (n + 1)))
  | increment, .float x => .ok (some (.float (x + 1.0)))
  | increment, .list l => do return some (.list (← l.shift 1 registry))
  | decrement, .bool b => .ok (some (.int (bitOf b - 1)))
  | decrement, .int n => .ok (some (.int (n - 1)))
  | decrement, .float x => .ok (some (.float (x - 1.0)))
  | decrement, .list l => do return some (.list (← l.shift (-1) registry))
  | _, _ => .ok none

end Unary

end Skein
