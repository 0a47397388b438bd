import Skein.Expr.Lexeme
import Skein.Expr.Token
import Skein.Number.Reading

set_option autoImplicit false

/-!
# Expr: from source text to tokens

Lexemes become tokens from left to right.  What a minus or a step sign means depends on
whether an operand has just ended; what a name means depends on the names the caller
knows.  A last pass counts the arguments of every call.
-/

namespace Skein

/-- The names that can be classified before evaluation. -/
structure Symbols where
  /-- Names of host functions. -/
  external : String → Bool
  /-- Names of story functions. -/
  story : String → Bool
  /-- Names of list definitions. -/
  list : String → Bool

/-- No known names. -/
def Symbols.none : Symbols :=
  { external := fun _ => false, story := fun _ => false, list := fun _ => false }

/-! ## Literals and names -/

/-- Reads the escapes of a text.  A backslash before any other character stands for
itself. -/
def unescape : List Char → List Char
  | [] => []
  | ['\\'] => ['\\']
  | '\\' :: 'n' :: rest => '\n' :: unescape rest
  | '\\' :: 't' :: rest => '\t' :: unescape rest
  | '\\' :: '\\' :: rest => '\\' :: unescape rest
  | '\\' :: '"' :: rest => '"' :: unescape rest
  | '\\' :: c :: rest => '\\' :: c :: unescape rest
  | c :: rest => c :: unescape rest

/-- The operator that a word stands for. -/
def wordOperator? : String → Option Operator
  | "and" => some .and
  | "or" => some .or
  | "not" => some .not
  | "mod" => some .modulo
  | "has" => some .contains
  | "hasnt" => some .notContains
  | _ => none

/-- The token for a called function whose arguments are not counted yet. -/
def functionToken (name : String) (kind : CallKind) : Token :=
  .function { name := name, kind := kind, arity := 0 }

/-- The token for a word that is not an operator word or a truth value. -/
def classifyName (symbols : Symbols) (name : String) (called : Bool) : Token :=
  match Builtin.ofName? name with
  | some b => functionToken name (.builtin b)
  | none =>
    if symbols.external name then functionToken name .external
    else if symbols.story name then functionToken name .story
    else if name = "temp" then .keyword .temp
    else if name = "return" then .keyword .ret
    else if called then
      functionToken name (if symbols.list name then .subscript else .unresolved)
    else .ident name

/-- The token for a word; `called` says that an opening parenthesis follows. -/
def classify (symbols : Symbols) (name : String) (called : Bool) : Token :=
  match wordOperator? name with
  | some op => .operator op (if op = .not then .before else .between)
  | none =>
    if name = "true" then .bool true
    else if name = "false" then .bool false
    else classifyName symbols name called

/-! ## Lexemes to tokens -/

/-- Whether an operand has just ended. -/
def afterOperand (previous : Option Token) : Bool :=
  match previous with
  | some t => t.endsOperand
  | none => false

/-- Whether the next lexeme is an opening parenthesis. -/
def isCalled : List Piece → Bool
  | piece :: _ => piece.lexeme = .openParen
  | [] => false

/-- The token for a lexeme outside a path; `called` says that an opening parenthesis
follows.  An arrow is no token without the section name after it. -/
def tokenOf (symbols : Symbols) (previous : Option Token) (piece : Piece) (called : Bool) :
    Except ExprFault Token :=
  match piece.lexeme with
  | .openParen => .ok (.punct .opening)
  | .closeParen => .ok (.punct .closing)
  | .comma => .ok (.punct .comma)
  | .arrow => .error (.expectedPath piece.offset)
  | .sign op => .ok (.operator op .between)
  | .step op => .ok (.operator op (if afterOperand previous then .after else .before))
  | .minus =>
    .ok (if afterOperand previous then .operator .subtract .between
      else .operator .negate .before)
  | .bang => .ok (.operator .not .before)
  | .str body => .ok (.str (String.ofList (unescape body)))
  | .float literal =>
    match Number.readFloat? literal with
    | some x => .ok (.float x)
    | none => .error (.invalidNumber (String.ofList literal))
  | .int literal =>
    match Number.readInt64? literal with
    | some n => .ok (.int n)
    | none => .error (.invalidNumber (String.ofList literal))
  | .word name => .ok (classify symbols (String.ofList name) called)

/-- The tokens of a run of lexemes after a previous token.  `inPath` says that an arrow
has just been read; `size` is the size of the source in bytes.  An empty pair of
parentheses that calls no function is the empty list. -/
def tokensOf (symbols : Symbols) (size : Nat) (previous : Option Token) (inPath : Bool) :
    List Piece → Except ExprFault (List Token)
  | [] => if inPath then .error (.expectedPath size) else .ok []
  | piece :: rest =>
    if inPath then
      match piece.lexeme with
      | .word name => do
        let token := Token.path (String.ofList name)
        return token :: (← tokensOf symbols size (some token) false rest)
      | _ => .error (.expectedPath piece.offset)
    else
      match piece.lexeme, rest with
      | .arrow, rest => tokensOf symbols size previous true rest
      | .openParen, next :: later =>
        if next.lexeme = .closeParen && !(previous.any Token.isFunction) then do
          let token := Token.list .empty
          return token :: (← tokensOf symbols size (some token) false later)
        else do
          let token := Token.punct .opening
          return token :: (← tokensOf symbols size (some token) false (next :: later))
      | _, rest => do
        let token ← tokenOf symbols previous piece (isCalled rest)
        return token :: (← tokensOf symbols size (some token) false rest)

/-! ## Counting arguments -/

/-- An open pair of parentheses: the function it belongs to, if any, by its place among
the tokens, the commas seen directly inside, and whether anything else was seen. -/
structure Group where
  function : Option Nat
  commas : Nat
  hasContent : Bool
  deriving DecidableEq, Repr

/-- The number of arguments in a closed group. -/
def Group.arity (g : Group) : Nat := if g.hasContent then g.commas + 1 else 0

/-- Notes that a group is not empty. -/
def markContent : List Group → List Group
  | [] => []
  | g :: outer => { g with hasContent := true } :: outer

/-- The argument count of every call, as places of functions with their counts.  The
token before is given with its place. -/
def countArguments (previous : Option Token) (place : Nat) (groups : List Group) :
    List Token → Except ExprFault (List (Nat × Nat))
  | [] => if groups.isEmpty then .ok [] else .error .unclosedParen
  | .punct .comma :: rest =>
    match groups with
    | { function := some f, commas := n, hasContent := c } :: outer =>
      countArguments (some (.punct .comma)) (place + 1)
        ({ function := some f, commas := n + 1, hasContent := c } :: outer) rest
    | _ => .error (.misplacedComma place)
  | .punct .closing :: rest =>
    match groups with
    | [] => .error (.unmatchedParen place)
    | g :: outer => do
      let later ← countArguments (some (.punct .closing)) (place + 1) outer rest
      return (g.function.map fun f => (f, g.arity)).toList ++ later
  | .punct .opening :: rest =>
    let function := if previous.any Token.isFunction then some (place - 1) else none
    countArguments (some (.punct .opening)) (place + 1)
      ({ function := function, commas := 0, hasContent := false } :: markContent groups) rest
  | token :: rest => countArguments (some token) (place + 1) (markContent groups) rest

/-- The token with a number of arguments. -/
def Token.withArity (arity : Nat) : Token → Token
  | .function f => .function { f with arity := arity }
  | token => token

/-- The tokens with the argument counts of their calls. -/
def setArities (counts : List (Nat × Nat)) (tokens : List Token) : List Token :=
  tokens.mapIdx fun place token =>
    match counts.find? fun count => count.1 = place with
    | some count => token.withArity count.2
    | none => token

/-- The tokens of a source text. -/
def tokenize (symbols : Symbols) (source : String) : Except ExprFault (List Token) := do
  let cs := source.toList
  let pieces ← lex cs
  let tokens ← tokensOf symbols (byteSize cs) none false pieces
  let counts ← countArguments none 0 [] tokens
  return setArities counts tokens

end Skein
