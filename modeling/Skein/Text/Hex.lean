set_option autoImplicit false

/-!
# Text: hexadecimal

Bytes as text, two lower-case digits each, the high one first.
-/

namespace Skein.Text.Hex

/-- The digit of a number below sixteen. -/
def digit (n : UInt8) : Char :=
  Char.ofNat (if n < 10 then '0'.toNat + n.toNat else 'a'.toNat + (n.toNat - 10))

/-- The number of a digit. -/
def value? (c : Char) : Option UInt8 :=
  if '0' ≤ c && c ≤ '9' then some (UInt8.ofNat (c.toNat - '0'.toNat))
  else if 'a' ≤ c && c ≤ 'f' then some (UInt8.ofNat (c.toNat - 'a'.toNat + 10))
  else none

/-- The text of bytes. -/
def write (bytes : List UInt8) : String :=
  bytes.foldl (fun text b => (text.push (digit (b / 16))).push (digit (b % 16))) ""

/-- The bytes of digits, after those read already (latest first). -/
def readDigits (done : List UInt8) : List Char → Option (List UInt8)
  | [] => some done.reverse
  | [_] => none
  | high :: low :: rest => do
    let high ← value? high
    let low ← value? low
    readDigits ((high * 16 + low) :: done) rest

/-- The bytes that a text writes. -/
def read? (text : String) : Option (List UInt8) := readDigits [] text.toList

end Skein.Text.Hex
