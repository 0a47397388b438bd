import Skein.Text.Quoted
import Skein.Value.Basic

set_option autoImplicit false

/-!
# Expr: causes of failure

Why an expression cannot be read or evaluated, and how each cause is worded.
-/

namespace Skein

/-- Why an expression cannot be read or evaluated. -/
inductive ExprFault where
  /-- Source text that starts no token, at a byte offset. -/
  | unexpectedCharacter (offset : Nat) (found : String)
  /-- A number literal out of range. -/
  | invalidNumber (literal : String)
  /-- An arrow without a section name after it, at a byte offset. -/
  | expectedPath (offset : Nat)
  /-- A closing parenthesis without an opening one. -/
  | unmatchedParen (token : Nat)
  /-- An opening parenthesis that is never closed. -/
  | unclosedParen
  /-- A comma outside a function call. -/
  | misplacedComma (token : Nat)
  /-- No tokens at all. -/
  | empty
  /-- A call of a name that nothing defines. -/
  | unknownFunction (name : String)
  /-- A call with the wrong number of arguments. -/
  | wrongArity (function : String) (expected found : Nat)
  /-- A call with an argument that the function cannot use. -/
  | invalidArgument (function reason : String)
  /-- An operator without a result for the kinds of its two operands. -/
  | typeMismatch (op : String) (lhs rhs : Kind)
  /-- An operator without a result for the kind of its operand. -/
  | unaryTypeMismatch (op : String) (operand : Kind)
  /-- A variable that is used and has no value. -/
  | undefinedVariable (name : String)
  /-- An operand that has no value. -/
  | missingValue (op : String)
  /-- An assignment to something that is not a variable. -/
  | assignToNonVariable
  /-- An assignment to a constant. -/
  | assignToConstant (name : String)
  /-- An operator or a call that needs more operands than there are. -/
  | stackUnderflow
  /-- A failed operation on values. -/
  | value (fault : ValueFault)
  deriving DecidableEq

/-- The wording of a failure. -/
def ExprFault.message : ExprFault → String
  | .unexpectedCharacter offset found =>
    "unexpected character " ++ Text.quote found ++ " at offset " ++ toString offset
  | .invalidNumber literal => "invalid number literal: " ++ literal
  | .expectedPath offset => "expected a section name after `->` at offset " ++ toString offset
  | .unmatchedParen token => "unmatched `)` at token " ++ toString token
  | .unclosedParen => "unclosed `(`"
  | .misplacedComma token => "misplaced `,` at token " ++ toString token
  | .empty => "empty expression"
  | .unknownFunction name => "unknown function: " ++ name
  | .wrongArity function expected found =>
    function ++ " expects " ++ toString expected ++ " argument(s), got " ++ toString found
  | .invalidArgument function reason => "invalid argument to " ++ function ++ ": " ++ reason
  | .typeMismatch op lhs rhs =>
    "operator `" ++ op ++ "` cannot be applied to " ++ lhs.text ++ " and " ++ rhs.text
  | .unaryTypeMismatch op operand =>
    "operator `" ++ op ++ "` cannot be applied to " ++ operand.text
  | .undefinedVariable name => "undefined variable: " ++ name
  | .missingValue op => "operator `" ++ op ++ "` is missing an operand value"
  | .assignToNonVariable => "assignment target is not a variable"
  | .assignToConstant name => "cannot assign to constant: " ++ name
  | .stackUnderflow => "operand stack exhausted"
  | .value fault => fault.message

end Skein
