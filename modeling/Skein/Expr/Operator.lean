import Skein.Value.Operator

set_option autoImplicit false

/-!
# Expr: operators in source text

The operators an expression can be written with.  They include assignment, which is not
an operator on values, and tell the minus sign of a negation from that of a
subtraction.  Binding strengths decide how an expression without parentheses groups.
-/

namespace Skein

/-- An operator of the expression language. -/
inductive Operator where
  | assign
  | addAssign
  | subAssign
  | add
  | subtract
  | multiply
  | divide
  | modulo
  | negate
  | not
  | increment
  | decrement
  | equal
  | notEqual
  | less
  | greater
  | lessEq
  | greaterEq
  | and
  | or
  | contains
  | notContains
  | bitAnd
  | bitXor
  | bitOr
  | shiftLeft
  | shiftRight
  deriving DecidableEq, Repr

/-- Where an operator stands relative to its operands. -/
inductive Fixity where
  /-- Between two operands. -/
  | between
  /-- Before its operand. -/
  | before
  /-- After its operand. -/
  | after
  deriving DecidableEq, Repr

namespace Operator

/-- Binding strength; the higher binds tighter. -/
def precedence : Operator → Nat
  | negate | not | increment | decrement => 13
  | multiply | divide | modulo => 12
  | add | subtract => 11
  | shiftLeft | shiftRight => 10
  | less | greater | lessEq | greaterEq | contains | notContains => 9
  | equal | notEqual => 8
  | bitAnd => 7
  | bitXor => 6
  | bitOr => 5
  | and => 4
  | or => 3
  | assign | addAssign | subAssign => 1

/-- Whether the operator stores its right operand in its left one. -/
def isAssignment : Operator → Bool
  | assign | addAssign | subAssign => true
  | _ => false

/-- Whether a run of the operator groups from the right. -/
def isRightAssociative (op : Operator) : Bool := op.isAssignment

/-- The operator on two values that is applied, if any; for a compound assignment the
one it combines the old value with. -/
def binary? : Operator → Option Binary
  | add | addAssign => some .add
  | subtract | subAssign => some .subtract
  | multiply => some .multiply
  | divide => some .divide
  | modulo => some .modulo
  | equal => some .equal
  | notEqual => some .notEqual
  | less => some .less
  | greater => some .greater
  | lessEq => some .lessEq
  | greaterEq => some .greaterEq
  | and => some .and
  | or => some .or
  | contains => some .contains
  | notContains => some .notContains
  | bitAnd => some .bitAnd
  | bitXor => some .bitXor
  | bitOr => some .bitOr
  | shiftLeft => some .shiftLeft
  | shiftRight => some .shiftRight
  | assign | negate | not | increment | decrement => none

/-- The operator on one value that is applied, if any. -/
def unary? : Operator → Option Unary
  | negate => some .negate
  | not => some .not
  | increment => some .increment
  | decrement => some .decrement
  | _ => none

/-- How the operator is written. -/
def symbol : Operator → String
  | assign => "="
  | addAssign => "+="
  | subAssign => "-="
  | add => "+"
  | subtract => "-"
  | multiply => "*"
  | divide => "/"
  | modulo => "%"
  | negate => "-"
  | not => "!"
  | increment => "++"
  | decrement => "--"
  | equal => "=="
  | notEqual => "!="
  | less => "<"
  | greater => ">"
  | lessEq => "<="
  | greaterEq => ">="
  | and => "&&"
  | or => "||"
  | contains => "?"
  | notContains => "!?"
  | bitAnd => "&"
  | bitXor => "^"
  | bitOr => "|"
  | shiftLeft => "<<"
  | shiftRight => ">>"

end Operator

end Skein
