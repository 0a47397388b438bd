import Skein.Expr.Fault
import Skein.Expr.Token

set_option autoImplicit false

/-!
# Expr: evaluation order

The order in which the tokens of an expression are evaluated: operands before their
operator, arguments before their function, a leading keyword last.  The order lists
places among the tokens; parentheses and commas shape it and do not appear in it.
Operators, functions and parentheses that wait for their operands are held on a stack.
-/

namespace Skein

/-- A token that waits, with its place. -/
abbrev Held := Nat × Token

namespace Held

/-- Whether the held token is an opening parenthesis. -/
def isOpening (held : Held) : Bool := held.2 = .punct .opening

/-- The binding strength of a held operator or keyword; nothing for a function or a
parenthesis, which stops the search for tighter operators. -/
def strength? (held : Held) : Option Nat :=
  match held.2 with
  | .operator op _ => some op.precedence
  | .keyword _ => some 0
  | _ => none

/-- Whether the held operator takes its operands before a new one does. -/
def precedes (op : Operator) (held : Held) : Bool :=
  match held.strength? with
  | some strength =>
    if op.isRightAssociative then op.precedence < strength else op.precedence ≤ strength
  | none => false

end Held

/-- Whether a call follows: the next token is an opening parenthesis. -/
def opensNext : List Token → Bool
  | .punct .opening :: _ => true
  | _ => false

/-- What is still held at the end; no parenthesis may be. -/
def release (held : List Held) : Except ExprFault (List Nat) :=
  if held.any Held.isOpening then .error .unclosedParen else .ok (held.map (·.1))

/-- The order of the tokens from a place on, given what is held, innermost first. -/
def orderFrom (place : Nat) (held : List Held) : List Token → Except ExprFault (List Nat)
  | [] => release held
  | token :: rest =>
    match token with
    | .function _ =>
      if opensNext rest then orderFrom (place + 1) ((place, token) :: held) rest
      else do return place :: (← orderFrom (place + 1) held rest)
    | .keyword _ | .operator _ .before | .punct .opening =>
      orderFrom (place + 1) ((place, token) :: held) rest
    | .operator op .between => do
      let later ← orderFrom (place + 1)
        ((place, token) :: held.dropWhile (Held.precedes op)) rest
      return (held.takeWhile (Held.precedes op)).map (·.1) ++ later
    | .punct .comma =>
      match held.dropWhile (!·.isOpening) with
      | [] => .error (.misplacedComma place)
      | outer => do
        let later ← orderFrom (place + 1) outer rest
        return (held.takeWhile (!·.isOpening)).map (·.1) ++ later
    | .punct .closing =>
      let inner := (held.takeWhile (!·.isOpening)).map (·.1)
      match held.dropWhile (!·.isOpening) with
      | [] => .error (.unmatchedParen place)
      | _ :: (f, .function _) :: outer => do
        let later ← orderFrom (place + 1) outer rest
        return inner ++ f :: later
      | _ :: outer => do
        let later ← orderFrom (place + 1) outer rest
        return inner ++ later
    | _ => do return place :: (← orderFrom (place + 1) held rest)

/-- The evaluation order of tokens. -/
def postorder (tokens : List Token) : Except ExprFault (List Nat) :=
  orderFrom 0 [] tokens

end Skein
