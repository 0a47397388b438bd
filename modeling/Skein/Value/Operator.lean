set_option autoImplicit false

/-!
# Value: operators

The operators that values can be combined with, and how they are spelled.
-/

namespace Skein

/-- An operator on two values. -/
inductive Binary where
  | add
  | subtract
  | multiply
  | divide
  | modulo
  | equal
  | notEqual
  | less
  | greater
  | lessEq
  | greaterEq
  | and
  | or
  | contains
  | notContains
  | bitAnd
  | bitXor
  | bitOr
  | shiftLeft
  | shiftRight
  deriving DecidableEq, Repr

namespace Binary

/-- How the operator is written. -/
def symbol : Binary → String
  | add => "+"
  | subtract => "-"
  | multiply => "*"
  | divide => "/"
  | modulo => "%"
  | equal => "=="
  | notEqual => "!="
  | less => "<"
  | greater => ">"
  | lessEq => "<="
  | greaterEq => ">="
  | and => "&&"
  | or => "||"
  | contains => "?"
  | notContains => "!?"
  | bitAnd => "&"
  | bitXor => "^"
  | bitOr => "|"
  | shiftLeft => "<<"
  | shiftRight => ">>"

/-- Whether the operator yields a truth value and has no value, instead of failing,
where it does not apply. -/
def isComparison : Binary → Bool
  | equal | notEqual | less | greater | lessEq | greaterEq | contains | notContains => true
  | _ => false

/-- Whether the operator combines truth values. -/
def isLogical : Binary → Bool
  | and | or => true
  | _ => false

/-- What a comparison answers for two operands in a given order; nothing for operators
that do not compare by order. -/
def holds? (op : Binary) (order : Ordering) : Option Bool :=
  match op with
  | equal => some (order = .eq)
  | notEqual => some (order ≠ .eq)
  | less => some (order = .lt)
  | greater => some (order = .gt)
  | lessEq => some (order ≠ .gt)
  | greaterEq => some (order ≠ .lt)
  | _ => none

end Binary

/-- An operator on one value. -/
inductive Unary where
  | negate
  | not
  | increment
  | decrement
  deriving DecidableEq, Repr

/-- How the operator is written. -/
def Unary.symbol : Unary → String
  | negate => "-"
  | not => "!"
  | increment => "++"
  | decrement => "--"

end Skein
