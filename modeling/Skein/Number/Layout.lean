import Skein.Number.Shortest

set_option autoImplicit false

/-!
# Number: how doubles are written

A double is written with the digits of its shortest decimal.  A `Layout` holds the
remaining decisions, and the two layouts of story text are its values: `plain` for
values shown to the reader, `explicit` for number tokens.
-/

namespace Skein.Number

/-- The decisions that turn digits into text. -/
structure Layout where
  /-- The least place of a leading digit that is written without an exponent. -/
  leastPlace : Option Int
  /-- The greatest such place. -/
  greatestPlace : Option Int
  /-- Whether a whole number keeps a point and a zero. -/
  pointed : Bool
  deriving DecidableEq, Repr

/-- Values are always written out in full, and whole numbers have no point. -/
def Layout.plain : Layout :=
  { leastPlace := none, greatestPlace := none, pointed := false }

/-- Number tokens always show that they are not integers, and take an exponent from
`10 ^ 16` upward and below `10 ^ -4`. -/
def Layout.explicit : Layout :=
  { leastPlace := some (-3), greatestPlace := some 16, pointed := true }

/-- Whether a leading digit at this place is written without an exponent. -/
def Layout.isPositional (layout : Layout) (place : Int) : Bool :=
  layout.leastPlace.all (· ≤ place) && layout.greatestPlace.all (place ≤ ·)

/-- The digits of a decimal without zeros at the end. -/
def Decimal.significant (d : Decimal) : List Char :=
  ((Nat.toDigits 10 d.digits).reverse.dropWhile (· == '0')).reverse

/-- Digits written without an exponent, the leading one at the given place. -/
def positional (pointed : Bool) (digits : List Char) (place : Int) : List Char :=
  if place ≤ 0 then
    ['0', '.'] ++ List.replicate (-place).toNat '0' ++ digits
  else if digits.length ≤ place.toNat then
    digits ++ List.replicate (place.toNat - digits.length) '0' ++
      (if pointed then ['.', '0'] else [])
  else
    digits.take place.toNat ++ ['.'] ++ digits.drop place.toNat

/-- Digits written with an exponent, the leading one at the given place. -/
def scientific (digits : List Char) (place : Int) : List Char :=
  let fraction := digits.drop 1
  digits.take 1 ++ (if fraction.isEmpty then [] else '.' :: fraction) ++ ['e'] ++
    (toString (place - 1)).toList

/-- A positive or zero number in a layout. -/
def Layout.magnitude (layout : Layout) (mantissa : Nat) (exponent : Int) : List Char :=
  if mantissa = 0 then
    if layout.pointed then ['0', '.', '0'] else ['0']
  else
    let d := shortest mantissa exponent
    if layout.isPositional d.place then positional layout.pointed d.significant d.place
    else scientific d.significant d.place

/-- A double in a layout. -/
def Layout.write (layout : Layout) (x : Float) : String :=
  match parts x with
  | .nan => "NaN"
  | .infinite negative => if negative then "-inf" else "inf"
  | .finite negative m e =>
    String.ofList ((if negative then ['-'] else []) ++ layout.magnitude m e)

end Skein.Number
