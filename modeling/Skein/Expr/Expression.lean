import Skein.Expr.Postorder
import Skein.Expr.Tokenize
import Skein.Text.Blank

set_option autoImplicit false

/-!
# Expr: expressions

An expression is a source text with its tokens and their evaluation order.  It is stored
as its source and read again from it.
-/

namespace Skein

/-- An expression that has been read. -/
structure Expression where
  /-- The source without white space around it. -/
  source : String
  tokens : List Token
  /-- Places of tokens in evaluation order. -/
  order : List Nat
  deriving DecidableEq

namespace Expression

/-- Reads an expression. -/
def parse (symbols : Symbols) (source : String) : Except ExprFault Expression := do
  let tokens ← tokenize symbols source
  if tokens.isEmpty then throw .empty
  let order ← postorder tokens
  return { source := Text.trim source, tokens := tokens, order := order }

/-- Whether the expression declares a temporary. -/
def isTempDeclaration (e : Expression) : Bool := e.tokens.any Token.isTemp

/-- The tokens in evaluation order. -/
def ordered (e : Expression) : List Token := e.order.filterMap (e.tokens[·]?)

end Expression

end Skein
