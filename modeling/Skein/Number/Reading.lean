import Skein.Number.Shortest

set_option autoImplicit false

/-!
# Number: reading integers and doubles

The two readers take a whole text, without white space around it.  An integer is an
optional sign and decimal digits, and must fit in 64 bits.  A double is an optional
sign and a name (`inf`, `infinity` or `nan`, in any case) or decimal digits with an
optional point, a digit on at least one side of it, and an optional exponent; it is
rounded to nearest.
-/

namespace Skein.Number

/-- The value of a run of decimal digits. -/
def digitsValue (digits : List Char) : Nat :=
  digits.foldl (fun n c => n * 10 + (c.toNat - '0'.toNat)) 0

/-- The value of a non-empty text of decimal digits. -/
def readNat? (cs : List Char) : Option Nat :=
  if cs.isEmpty || !cs.all Char.isDigit then none else some (digitsValue cs)

/-- Splits off an optional sign; the first component is true for a minus. -/
def splitSign : List Char → Bool × List Char
  | '-' :: rest => (true, rest)
  | '+' :: rest => (false, rest)
  | cs => (false, cs)

/-- An integer with an optional sign. -/
def readInt? (cs : List Char) : Option Int :=
  let (negative, digits) := splitSign cs
  (readNat? digits).map fun n => if negative then -(n : Int) else n

/-- The integer as a 64-bit word, if it fits. -/
def toInt64? (n : Int) : Option Int64 :=
  if Int64.minValue.toInt ≤ n && n ≤ Int64.maxValue.toInt then some (Int64.ofInt n) else none

/-- An integer with an optional sign that fits in 64 bits. -/
def readInt64? (cs : List Char) : Option Int64 :=
  (readInt? cs).bind toInt64?

/-! ## Doubles -/

/-- The double nearest to `mantissa * 10 ^ exponent`.  Decimals beyond every double are
settled by their place alone, so that no power of ten is computed for them. -/
def roundDecimal (mantissa : Nat) (exponent : Int) : Float :=
  let place : Int := digitCount mantissa + exponent
  if mantissa = 0 then 0.0
  else if 310 < place then 1.0 / 0.0
  else if place < -330 then 0.0
  else Float.ofScientific mantissa (exponent < 0) exponent.natAbs

/-- The exponent part after the digits: nothing, or a mark and an integer. -/
def readExponent? : List Char → Option Int
  | [] => some 0
  | c :: rest => if c = 'e' || c = 'E' then readInt? rest else none

/-- Decimal digits with an optional point and an optional exponent. -/
def readDecimal? (cs : List Char) : Option Float :=
  let whole := cs.takeWhile Char.isDigit
  let afterWhole := cs.dropWhile Char.isDigit
  let (fraction, afterDigits) :=
    match afterWhole with
    | '.' :: rest => (rest.takeWhile Char.isDigit, rest.dropWhile Char.isDigit)
    | rest => ([], rest)
  if whole.isEmpty && fraction.isEmpty then none
  else
    (readExponent? afterDigits).map fun e =>
      roundDecimal (digitsValue (whole ++ fraction)) (e - fraction.length)

/-- A double, or nothing for any other text. -/
def readFloat? (cs : List Char) : Option Float :=
  let (negative, rest) := splitSign cs
  let name := String.ofList (rest.map Char.toLower)
  let size :=
    if name = "inf" || name = "infinity" then some (1.0 / 0.0)
    else if name = "nan" then some (0.0 / 0.0)
    else readDecimal? rest
  size.map fun x => if negative then -x else x

end Skein.Number
