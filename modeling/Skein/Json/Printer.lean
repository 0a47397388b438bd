import Skein.Json.Basic
import Skein.Text.Quoted

set_option autoImplicit false

/-!
# Json: writing documents

Two ways to write a document: `pretty`, with every item and field on a line of its own
and two spaces a level, and `compact`, on one line without spaces.  In strings only the
quote, the backslash and characters below the space are escaped.  Each writer extends
the text written so far.
-/

namespace Skein.Json

/-- One character of a string. -/
def escapeChar (c : Char) : List Char :=
  match c with
  | '"' => ['\\', '"']
  | '\\' => ['\\', '\\']
  | '\n' => ['\\', 'n']
  | '\r' => ['\\', 'r']
  | '\t' => ['\\', 't']
  | '\x08' => ['\\', 'b']
  | '\x0c' => ['\\', 'f']
  | _ =>
    if c.toNat < 0x20 then
      let digits := Text.hexDigits c.toNat
      ['\\', 'u'] ++ List.replicate (4 - digits.length) '0' ++ digits
    else [c]

/-- A string in quotes. -/
def quoted (s : String) : String :=
  String.ofList ('"' :: s.toList.flatMap escapeChar ++ ['"'])

/-- A new line at a level. -/
def newline (level : Nat) : String :=
  String.ofList ('\n' :: List.replicate (2 * level) ' ')

mutual

/-- Writes a document over several lines. -/
def writePretty (level : Nat) (out : String) : Json → String
  | null => out ++ "null"
  | bool b => out ++ (if b then "true" else "false")
  | int n => out ++ toString n
  | real literal => out ++ literal
  | string s => out ++ quoted s
  | array [] => out ++ "[]"
  | array (item :: rest) =>
    writePrettyItems (level + 1)
      (writePretty (level + 1) (out ++ "[" ++ newline (level + 1)) item) rest ++
      newline level ++ "]"
  | object [] => out ++ "\x7b\x7d"
  | object ((key, value) :: rest) =>
    writePrettyFields (level + 1)
      (writePretty (level + 1)
        (out ++ "\x7b" ++ newline (level + 1) ++ quoted key ++ ": ") value) rest ++
      newline level ++ "\x7d"

/-- Writes the items after the first. -/
def writePrettyItems (level : Nat) (out : String) : List Json → String
  | [] => out
  | item :: rest =>
    writePrettyItems level (writePretty level (out ++ "," ++ newline level) item) rest

/-- Writes the fields after the first. -/
def writePrettyFields (level : Nat) (out : String) : List (String × Json) → String
  | [] => out
  | (key, value) :: rest =>
    writePrettyFields level
      (writePretty level (out ++ "," ++ newline level ++ quoted key ++ ": ") value) rest

end

/-- A document over several lines. -/
def pretty (json : Json) : String := writePretty 0 "" json

mutual

/-- Writes a document on one line. -/
def writeCompact (out : String) : Json → String
  | null => out ++ "null"
  | bool b => out ++ (if b then "true" else "false")
  | int n => out ++ toString n
  | real literal => out ++ literal
  | string s => out ++ quoted s
  | array [] => out ++ "[]"
  | array (item :: rest) => writeCompactItems (writeCompact (out ++ "[") item) rest ++ "]"
  | object [] => out ++ "\x7b\x7d"
  | object ((key, value) :: rest) =>
    writeCompactFields (writeCompact (out ++ "\x7b" ++ quoted key ++ ":") value) rest ++ "\x7d"

/-- Writes the items after the first. -/
def writeCompactItems (out : String) : List Json → String
  | [] => out
  | item :: rest => writeCompactItems (writeCompact (out ++ ",") item) rest

/-- Writes the fields after the first. -/
def writeCompactFields (out : String) : List (String × Json) → String
  | [] => out
  | (key, value) :: rest =>
    writeCompactFields (writeCompact (out ++ "," ++ quoted key ++ ":") value) rest

end

/-- A document on one line. -/
def compact (json : Json) : String := writeCompact "" json

end Skein.Json
