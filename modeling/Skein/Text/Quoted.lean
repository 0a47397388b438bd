import Skein.Text.Printable

set_option autoImplicit false

/-!
# Text: quoted form

The form in which messages and token listings show a piece of source text: in
double quotes, with the usual short escapes, and with every character that has
no glyph of its own written as its code point in hexadecimal.
-/

namespace Skein.Text

/-- Lower-case hexadecimal digits of a number, without padding. -/
def hexDigits (n : Nat) : List Char :=
  Nat.toDigits 16 n

/-- One character inside double quotes. -/
def quoteChar (c : Char) : List Char :=
  match c with
  | '"' => ['\\', '"']
  | '\\' => ['\\', '\\']
  | '\n' => ['\\', 'n']
  | '\r' => ['\\', 'r']
  | '\t' => ['\\', 't']
  | _ =>
    if c.toNat = 0 then ['\\', '0']
    else if isPrintable c then [c]
    else ['\\', 'u', '\x7b'] ++ hexDigits c.toNat ++ ['\x7d']

/-- A text in double quotes. -/
def quote (s : String) : String :=
  String.ofList ('"' :: s.toList.flatMap quoteChar ++ ['"'])

end Skein.Text
