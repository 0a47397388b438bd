import Skein.Expr.Fault
import Skein.Expr.Operator

set_option autoImplicit false

/-!
# Expr: lexemes

The first cut through the source text of an expression.  At every place the longest
lexeme wins; between lexemes only the space, the tab and the two line ends are skipped.
A lexeme comes with the characters it is made of, so the lexemes and the skipped
characters together are the source.
-/

namespace Skein

/-- A piece of source text with a shape of its own. -/
inductive Lexeme where
  | openParen
  | closeParen
  | comma
  | arrow
  /-- A sign that is always an operator between operands. -/
  | sign (op : Operator)
  /-- `++` or `--`, before or after its operand. -/
  | step (op : Operator)
  /-- `-`, a subtraction or a negation. -/
  | minus
  /-- `!`, before its operand. -/
  | bang
  /-- A text in quotes: the characters between them, escapes as written. -/
  | str (body : List Char)
  | float (literal : List Char)
  | int (literal : List Char)
  /-- A name, possibly dotted. -/
  | word (name : List Char)
  deriving DecidableEq, Repr

namespace Lexeme

/-- White space between lexemes. -/
def isSpace (c : Char) : Bool := c = ' ' || c = '\t' || c = '\r' || c = '\n'

/-- A character that a name can start with. -/
def isWordStart (c : Char) : Bool := c.isAlpha || c = '_'

/-- A character that a name can go on with. -/
def isWordChar (c : Char) : Bool := c.isAlphanum || c = '_'

/-! ## Signs -/

/-- The lexeme that two characters make. -/
def ofTwo? : Char → Char → Option Lexeme
  | '-', '>' => some arrow
  | '=', '=' => some (sign .equal)
  | '!', '=' => some (sign .notEqual)
  | '<', '=' => some (sign .lessEq)
  | '>', '=' => some (sign .greaterEq)
  | '&', '&' => some (sign .and)
  | '|', '|' => some (sign .or)
  | '<', '<' => some (sign .shiftLeft)
  | '>', '>' => some (sign .shiftRight)
  | '+', '+' => some (step .increment)
  | '-', '-' => some (step .decrement)
  | '+', '=' => some (sign .addAssign)
  | '-', '=' => some (sign .subAssign)
  | '!', '?' => some (sign .notContains)
  | _, _ => none

/-- The lexeme that one character makes. -/
def ofOne? : Char → Option Lexeme
  | '(' => some openParen
  | ')' => some closeParen
  | ',' => some comma
  | '=' => some (sign .assign)
  | '+' => some (sign .add)
  | '-' => some minus
  | '*' => some (sign .multiply)
  | '/' => some (sign .divide)
  | '%' => some (sign .modulo)
  | '<' => some (sign .less)
  | '>' => some (sign .greater)
  | '!' => some bang
  | '?' => some (sign .contains)
  | '&' => some (sign .bitAnd)
  | '^' => some (sign .bitXor)
  | '|' => some (sign .bitOr)
  | _ => none

/-! ## Texts, numbers and names -/

/-- The characters after an opening quote as far as they are complete: plain characters,
and backslashes with the character after them, which may not be a line end.  The second
component is the source after the closing quote, if that is what stopped the scan.  The
characters found so far are given in reverse. -/
def scanText (found : List Char) : List Char → List Char × Option (List Char)
  | [] => (found.reverse, none)
  | '"' :: rest => (found.reverse, some rest)
  | ['\\'] => (found.reverse, none)
  | '\\' :: c :: rest =>
    if c = '\n' then (found.reverse, none) else scanText (c :: '\\' :: found) rest
  | c :: rest => scanText (c :: found) rest

/-- The rest of a name and the source after it.  A dot belongs to the name when another
part follows it. -/
def scanWord : List Char → List Char × List Char
  | [] => ([], [])
  | [c] => if isWordChar c then ([c], []) else ([], [c])
  | c :: d :: rest =>
    if isWordChar c || (c = '.' && isWordStart d) then
      let (name, after) := scanWord (d :: rest)
      (c :: name, after)
    else ([], c :: d :: rest)

/-- A number and the source after it.  A point belongs to the number when a digit follows
it. -/
def scanNumber (cs : List Char) : Lexeme × List Char × List Char :=
  let whole := cs.takeWhile Char.isDigit
  let plain := (int whole, whole, cs.dropWhile Char.isDigit)
  match cs.dropWhile Char.isDigit with
  | '.' :: rest =>
    let fraction := rest.takeWhile Char.isDigit
    if fraction.isEmpty then plain
    else
      let literal := whole ++ '.' :: fraction
      (float literal, literal, rest.dropWhile Char.isDigit)
  | _ => plain

/-- The lexeme at the start of a source that begins with the given character: the lexeme,
its characters and the source after it.  Where no lexeme starts, the text that is
reported: the one character, or a text in quotes as far as it goes. -/
def first (c : Char) (rest : List Char) : Except (List Char) (Lexeme × List Char × List Char) :=
  if c = '"' then
    match scanText [] rest with
    | (body, some after) => .ok (str body, '"' :: body ++ ['"'], after)
    | (body, none) => .error ('"' :: body)
  else if c.isDigit then .ok (scanNumber (c :: rest))
  else if isWordStart c then
    let (name, after) := scanWord rest
    .ok (word (c :: name), c :: name, after)
  else
    match rest.head?.bind (ofTwo? c) with
    | some lexeme => .ok (lexeme, c :: rest.take 1, rest.drop 1)
    | none =>
      match ofOne? c with
      | some lexeme => .ok (lexeme, [c], rest)
      | none => .error [c]

end Lexeme

/-- A lexeme with the byte offset it starts at. -/
structure Piece where
  lexeme : Lexeme
  offset : Nat
  deriving DecidableEq, Repr

/-- The size of characters in bytes. -/
def byteSize (cs : List Char) : Nat :=
  cs.foldl (fun n c => n + c.utf8Size) 0

/-- The lexemes of a source that starts at a byte offset; `bound` is greater than the
length of the source. -/
def lexFrom : (bound : Nat) → (offset : Nat) → List Char → Except ExprFault (List Piece)
  | 0, _, _ => .ok []
  | bound + 1, offset, cs =>
    let skipped := cs.takeWhile Lexeme.isSpace
    let start := offset + byteSize skipped
    match cs.dropWhile Lexeme.isSpace with
    | [] => .ok []
    | c :: rest =>
      match Lexeme.first c rest with
      | .error found => .error (.unexpectedCharacter start (String.ofList found))
      | .ok (lexeme, taken, after) => do
        let later ← lexFrom bound (start + byteSize taken) after
        return { lexeme := lexeme, offset := start } :: later

/-- The lexemes of a source. -/
def lex (source : List Char) : Except ExprFault (List Piece) :=
  lexFrom (source.length + 1) 0 source

end Skein
