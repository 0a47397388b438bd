import Skein.Expr.Operator
import Skein.Text.Quoted
import Skein.Value.Basic

set_option autoImplicit false

/-!
# Expr: tokens

The tokens of an expression, with every name already classified: as an operator word, a
literal, a function that is called, or a variable.
-/

namespace Skein

/-- A function that every story can call. -/
inductive Builtin where
  | random
  | seedRandom
  | int
  | float
  | floor
  | ceiling
  | pow
  | min
  | max
  | turns
  | turnsSince
  | readCount
  | choiceCount
  | listCount
  | listMin
  | listMax
  | listAll
  | listInvert
  | listRange
  | listValue
  | listRandom
  deriving DecidableEq, Repr

namespace Builtin

/-- Every built-in function. -/
def all : List Builtin :=
  [random, seedRandom, int, float, floor, ceiling, pow, min, max, turns, turnsSince, readCount,
    choiceCount, listCount, listMin, listMax, listAll, listInvert, listRange, listValue,
    listRandom]

/-- The name a built-in function is called by. -/
def name : Builtin → String
  | random => "RANDOM"
  | seedRandom => "SEED_RANDOM"
  | int => "INT"
  | float => "FLOAT"
  | floor => "FLOOR"
  | ceiling => "CEILING"
  | pow => "POW"
  | min => "MIN"
  | max => "MAX"
  | turns => "TURNS"
  | turnsSince => "TURNS_SINCE"
  | readCount => "READ_COUNT"
  | choiceCount => "CHOICE_COUNT"
  | listCount => "LIST_COUNT"
  | listMin => "LIST_MIN"
  | listMax => "LIST_MAX"
  | listAll => "LIST_ALL"
  | listInvert => "LIST_INVERT"
  | listRange => "LIST_RANGE"
  | listValue => "LIST_VALUE"
  | listRandom => "LIST_RANDOM"

/-- The built-in function with a name. -/
def ofName? (name : String) : Option Builtin :=
  all.find? fun b => b.name = name

/-- The number of arguments a built-in function takes. -/
def arity : Builtin → Nat
  | turns | choiceCount => 0
  | random | pow | min | max => 2
  | listRange => 3
  | _ => 1

end Builtin

/-- Where a called function is defined. -/
inductive CallKind where
  /-- Among the built-in functions. -/
  | builtin (b : Builtin)
  /-- By the host. -/
  | external
  /-- As a knot of the story. -/
  | story
  /-- As a list definition: the call selects the item with a value. -/
  | subscript
  /-- Not known yet; decided when the call is evaluated. -/
  | unresolved
  deriving DecidableEq, Repr

/-- A call: the name as written, where it is defined, and the number of arguments. -/
structure FunctionRef where
  name : String
  kind : CallKind
  arity : Nat
  deriving DecidableEq, Repr

/-- Words that act on a whole expression. -/
inductive Keyword where
  /-- `temp`: the assignment declares a temporary. -/
  | temp
  /-- `return`: the expression gives the value of the enclosing function. -/
  | ret
  deriving DecidableEq, Repr

/-- How a keyword is written. -/
def Keyword.text : Keyword → String
  | temp => "temp"
  | ret => "return"

/-- Parentheses and commas. -/
inductive Punct where
  | opening
  | closing
  | comma
  deriving DecidableEq, Repr

/-- How a punctuation mark is written. -/
def Punct.text : Punct → String
  | opening => "("
  | closing => ")"
  | comma => ","

/-- A token of an expression. -/
inductive Token where
  | keyword (k : Keyword)
  | bool (b : Bool)
  | int (n : Int64)
  | float (x : Float)
  /-- A text, its escapes already read. -/
  | str (s : String)
  | list (l : Selection)
  /-- A section name after an arrow. -/
  | path (p : String)
  | operator (op : Operator) (fixity : Fixity)
  | punct (p : Punct)
  | function (f : FunctionRef)
  /-- A variable, looked up when its value is needed. -/
  | ident (name : String)
  deriving DecidableEq

namespace Token

/-- Whether the token is an operand by itself. -/
def isOperand : Token → Bool
  | bool _ | int _ | float _ | str _ | list _ | path _ | ident _ => true
  | _ => false

/-- Whether an operand can end with this token, so that a minus after it subtracts and a
step sign after it belongs to it. -/
def endsOperand : Token → Bool
  | operator _ .after => true
  | punct .closing => true
  | function _ => true
  | t => t.isOperand

/-- Whether the token is a function. -/
def isFunction : Token → Bool
  | function _ => true
  | _ => false

/-- Whether the token declares a temporary. -/
def isTemp : Token → Bool
  | keyword .temp => true
  | _ => false

/-- The text of a token in a listing. -/
def text : Token → String
  | keyword k => k.text
  | bool b => if b then "true" else "false"
  | int n => toString n
  | float x => Number.Layout.explicit.write x
  | str s => Text.quote s
  | list l => "(" ++ l.text ++ ")"
  | path p => "-> " ++ p
  | operator op _ => op.symbol
  | punct p => p.text
  | function f => f.name ++ "/" ++ toString f.arity
  | ident name => name

end Token

end Skein
