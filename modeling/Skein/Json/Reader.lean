import Skein.Json.Outline
import Skein.Number.Reading

set_option autoImplicit false

/-!
# Json: reading texts

Reading goes in two passes.  The first cuts the text into tokens; each takes at least
one character.  The second runs over the tokens with a stack of the containers that are
still open.  Both go on to the first point at which the text stops to be a document, and
the outline says where that is.
-/

namespace Skein.Json

/-- A token of a text. -/
inductive Token where
  | openArray
  | closeArray
  | openObject
  | closeObject
  | comma
  | colon
  /-- A value without parts. -/
  | scalar (value : Outline)
  /-- The point at which the text is cut into tokens no further. -/
  | broken

/-- White space between tokens. -/
def isSpace (c : Char) : Bool := c = ' ' || c = '\n' || c = '\r' || c = '\t'

/-! ## Strings -/

/-- The value of a hexadecimal digit. -/
def hexValue? (c : Char) : Option Nat :=
  if '0' ≤ c && c ≤ '9' then some (c.toNat - '0'.toNat)
  else if 'a' ≤ c && c ≤ 'f' then some (c.toNat - 'a'.toNat + 10)
  else if 'A' ≤ c && c ≤ 'F' then some (c.toNat - 'A'.toNat + 10)
  else none

/-- The value of four hexadecimal digits. -/
def unit? (a b c d : Char) : Option Nat := do
  return (((← hexValue? a) * 16 + (← hexValue? b)) * 16 + (← hexValue? c)) * 16 + (← hexValue? d)

/-- The character of an escape with a single letter. -/
def shortEscape? : Char → Option Char
  | '"' => some '"'
  | '\\' => some '\\'
  | '/' => some '/'
  | 'b' => some '\x08'
  | 'f' => some '\x0c'
  | 'n' => some '\n'
  | 'r' => some '\r'
  | 't' => some '\t'
  | _ => none

/-- Whether a code unit is the first of a pair. -/
def isLeading (n : Nat) : Bool := 0xD800 ≤ n && n < 0xDC00

/-- Whether a code unit is the second of a pair. -/
def isTrailing (n : Nat) : Bool := 0xDC00 ≤ n && n < 0xE000

/-- A string while it is read. -/
structure Spelling where
  /-- The characters so far, latest first; nothing once a code unit of a pair stood alone. -/
  chars : Option (List Char) := some []
  /-- The first code unit of a pair whose second has to come next. -/
  leading : Option Nat := none

namespace Spelling

/-- Adds a character. -/
def addChar (s : Spelling) (c : Char) : Spelling where
  chars := if s.leading.isSome then none else s.chars.map (c :: ·)

/-- Adds an escaped code unit. -/
def addUnit (s : Spelling) (n : Nat) : Spelling :=
  match s.leading with
  | some m =>
    if isTrailing n then
      { chars := s.chars.map (Char.ofNat (0x10000 + (m - 0xD800) * 0x400 + (n - 0xDC00)) :: ·) }
    else { chars := none }
  | none =>
    if isLeading n then { s with leading := some n }
    else if isTrailing n then { chars := none }
    else s.addChar (Char.ofNat n)

/-- The string when it is closed, which can be read if no code unit stood alone. -/
def value (s : Spelling) : Outline :=
  match s.leading, s.chars with
  | none, some chars => .string (String.ofList chars.reverse)
  | _, _ => .unreadable

end Spelling

/-- The string up to its closing quote, and the text after it. -/
def readString (s : Spelling) : List Char → Option (Outline × List Char)
  | '"' :: rest => some (s.value, rest)
  | '\\' :: 'u' :: a :: b :: c :: d :: rest =>
    match unit? a b c d with
    | some n => readString (s.addUnit n) rest
    | none => none
  | '\\' :: c :: rest =>
    match shortEscape? c with
    | some x => readString (s.addChar x) rest
    | none => none
  | c :: rest => if c.toNat < 0x20 || c = '\\' then none else readString (s.addChar c) rest
  | [] => none

/-! ## Numbers -/

/-- Whether a character can stand in a number. -/
def isNumberChar (c : Char) : Bool :=
  c.isDigit || c = '-' || c = '+' || c = '.' || c = 'e' || c = 'E'

/-- Whether digits are a whole part: no zero in front of others. -/
def isWhole (digits : List Char) : Bool :=
  match digits with
  | [] => false
  | ['0'] => true
  | c :: _ => c ≠ '0'

/-- Whether the text after the whole part is an optional fraction and an optional
exponent, each with at least one digit. -/
def isTail (cs : List Char) : Bool :=
  let afterFraction :=
    match cs with
    | '.' :: rest =>
      if (rest.takeWhile Char.isDigit).isEmpty then none else some (rest.dropWhile Char.isDigit)
    | rest => some rest
  match afterFraction with
  | none => false
  | some [] => true
  | some (c :: rest) => (c = 'e' || c = 'E') && (Number.readInt? rest).isSome

/-- The number that a literal writes.  Minus zero and whole numbers beyond 64 bits count
as other numbers. -/
def number? (literal : List Char) : Option Outline :=
  let negative := literal.head? = some '-'
  let size := if negative then literal.drop 1 else literal
  let whole := size.takeWhile Char.isDigit
  let tail := size.dropWhile Char.isDigit
  if isWhole whole && isTail tail then
    let n := Number.digitsValue whole
    let fits := if negative then 0 < n && n ≤ Int64.minValue.toInt.natAbs else n < UInt64.size
    if tail.isEmpty && fits then
      some (.int (if negative then -(n : Int) else n))
    else some (.real (String.ofList literal))
  else none

/-! ## Tokens -/

/-- The value that a bare word writes. -/
def ofWord? (word : List Char) : Option Outline :=
  match String.ofList word with
  | "null" => some .null
  | "true" => some (.bool true)
  | "false" => some (.bool false)
  | _ => none

/-- The first token of a text that starts with the given character, and the text after
it. -/
def firstToken? (c : Char) (rest : List Char) : Option (Token × List Char) :=
  match c with
  | '[' => some (.openArray, rest)
  | ']' => some (.closeArray, rest)
  | '\x7b' => some (.openObject, rest)
  | '\x7d' => some (.closeObject, rest)
  | ',' => some (.comma, rest)
  | ':' => some (.colon, rest)
  | '"' => (readString {} rest).map fun (value, rest) => (.scalar value, rest)
  | _ =>
    if isNumberChar c then
      (number? (c :: rest.takeWhile isNumberChar)).map
        fun value => (.scalar value, rest.dropWhile isNumberChar)
    else
      (ofWord? (c :: rest.takeWhile Char.isAlpha)).map
        fun value => (.scalar value, rest.dropWhile Char.isAlpha)

/-- The tokens of a text, given in reverse those already found; `bound` is greater than
the length of the text. -/
def tokens (found : List Token) : (bound : Nat) → List Char → List Token
  | 0, _ => (.broken :: found).reverse
  | bound + 1, cs =>
    match cs.dropWhile isSpace with
    | [] => found.reverse
    | c :: rest =>
      match firstToken? c rest with
      | some (token, rest) => tokens (token :: found) bound rest
      | none => (.broken :: found).reverse

/-! ## Outlines -/

/-- A container that is still open: what it holds so far, in reverse, and for an object
the key whose value is being read. -/
inductive Container where
  | array (items : List Outline)
  | object (fields : List (Option String × Outline)) (key : Option String)

/-- What the next token may be. -/
inductive Stage where
  /-- A value. -/
  | value
  /-- A value, or the end of an array just opened. -/
  | firstItem
  /-- A key, or the end of an object just opened. -/
  | firstKey
  /-- A key, after a comma. -/
  | nextKey (fields : List (Option String × Outline))
  /-- The colon after a key. -/
  | colon (fields : List (Option String × Outline)) (key : Option String)
  /-- What may follow a value that has just been read. -/
  | after (value : Outline)

/-- The key that a value stands for, if it is a string. -/
def key? : Outline → Option (Option String)
  | .string key => some (some key)
  | .unreadable => some none
  | _ => none

/-- Whether there are fewer items than a number; no more items are counted than that. -/
def fewerThan {α : Type} : Nat → List α → Bool
  | 0, _ => false
  | _ + 1, [] => true
  | n + 1, _ :: rest => fewerThan n rest

/-- A container that has been closed, in those around it.  With `levels` or more around it,
it is nested too deep to be read. -/
def closed (levels : Nat) (outer : List Container) (container : Outline) :
    Stage × List Container :=
  (.after (if fewerThan levels outer then container else .unreadable), outer)

/-- The first token of a value. -/
def startValue (stack : List Container) : Token → Option (Stage × List Container)
  | .scalar value => some (.after value, stack)
  | .openArray => some (.firstItem, .array [] :: stack)
  | .openObject => some (.firstKey, stack)
  | _ => none

/-- Takes one token, if it may come next.  Containers nested more than `levels` deep cannot
be read. -/
def advance (levels : Nat) (stage : Stage) (stack : List Container) (token : Token) :
    Option (Stage × List Container) :=
  match stage, token, stack with
  | .firstItem, .closeArray, _ :: outer => some (closed levels outer (.array []))
  | .value, token, stack | .firstItem, token, stack => startValue stack token
  | .firstKey, .closeObject, stack => some (closed levels stack (.object []))
  | .firstKey, .scalar value, stack => (key? value).map fun key => (.colon [] key, stack)
  | .nextKey fields, .scalar value, stack =>
    (key? value).map fun key => (.colon fields key, stack)
  | .colon fields key, .colon, stack => some (.value, .object fields key :: stack)
  | .after value, .comma, .array items :: outer =>
    some (.value, .array (value :: items) :: outer)
  | .after value, .closeArray, .array items :: outer =>
    some (closed levels outer (.array (value :: items).reverse))
  | .after value, .comma, .object fields key :: outer =>
    some (.nextKey ((key, value) :: fields), outer)
  | .after value, .closeObject, .object fields key :: outer =>
    some (closed levels outer (.object ((key, value) :: fields).reverse))
  | _, _, _ => none

/-- Adds to a container the last thing it can have. -/
def Container.ending (last : Outline) : Container → Outline
  | .array items => .array (last :: items).reverse
  | .object fields key => .object ((key, last) :: fields).reverse

/-- Ends the containers that are still open, innermost first, where the text breaks. -/
def abandon (levels : Nat) (last : Outline) : List Container → Outline
  | [] => last
  | container :: outer =>
    abandon levels (if fewerThan levels outer then container.ending last else .broken) outer

/-- What is seen of a value when the text breaks after what was taken so far. -/
def breakOff (levels : Nat) (stage : Stage) (stack : List Container) : Outline :=
  match stage, stack with
  | .value, stack => abandon levels .broken stack
  | .firstItem, stack => abandon levels .broken stack
  | .firstKey, stack => abandon levels .broken (.object [] none :: stack)
  | .nextKey fields, stack => abandon levels .broken (.object fields none :: stack)
  | .colon fields key, stack => abandon levels .broken (.object fields key :: stack)
  | .after value, .array items :: outer => abandon levels .broken (.array (value :: items) :: outer)
  | .after value, .object fields key :: outer =>
    abandon levels .broken (.object ((key, value) :: fields) none :: outer)
  | .after value, [] => value

/-- Takes tokens to the end of the value or to the point where the text breaks; says too
whether the text ends there. -/
def assemble (levels : Nat) (stage : Stage) (stack : List Container) :
    List Token → Outline × Bool
  | [] => (breakOff levels stage stack, true)
  | token :: rest =>
    match advance levels stage stack token with
    | some (stage, stack) => assemble levels stage stack rest
    | none => (breakOff levels stage stack, false)

/-- What can be seen of a text, and whether nothing follows the value that it starts with.
Containers nested more than `levels` deep cannot be read. -/
def outline (levels : Nat) (text : String) : Outline × Bool :=
  let cs := text.toList
  assemble levels .value [] (tokens [] (cs.length + 1) cs)

/-- The document that a text writes, or nothing if it writes none that is nested at most
`levels` deep. -/
def parseWithin? (levels : Nat) (text : String) : Option Json :=
  match outline levels text with
  | (value, true) => value.json?
  | (_, false) => none

end Skein.Json
