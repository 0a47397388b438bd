set_option autoImplicit false

/-!
# Number: the parts of a double

A finite double is a whole number times a power of two.  Exact arithmetic on
doubles (their shortest decimals, their remainders) is done on these parts, in
`Nat` and `Int`, and never by rounding.
-/

namespace Skein.Number

/-- What a double stands for. -/
inductive Parts where
  /-- Not a number. -/
  | nan
  /-- An infinity of the given sign. -/
  | infinite (negative : Bool)
  /-- The number `mantissa * 2 ^ exponent`, with its sign. -/
  | finite (negative : Bool) (mantissa : Nat) (exponent : Int)
  deriving DecidableEq, Repr

/-- The least exponent of two that a double can carry. -/
def leastExponent : Int := -1074

/-- The least mantissa of 53 binary digits. -/
def leastFull : Nat := 1 <<< 52

/-- The parts of a double, read off its 64 bits. -/
def parts (x : Float) : Parts :=
  let bits := x.toBits.toNat
  let negative := bits >>> 63 == 1
  let biased := bits >>> 52 % 2048
  let fraction := bits % leastFull
  if biased = 2047 then
    if fraction = 0 then .infinite negative else .nan
  else if biased = 0 then .finite negative fraction leastExponent
  else .finite negative (leastFull + fraction) (leastExponent + (biased - 1 : Nat))

/-- The number of binary digits of a natural number. -/
def bitLength (n : Nat) : Nat :=
  if n = 0 then 0 else n.log2 + 1

/-- The number `mantissa * 2 ^ exponent` as a double, for numbers that are doubles.
The mantissa is first brought to 53 binary digits, or to the least exponent for
numbers too small for that; either way no digit other than zero is lost. -/
def ofParts (negative : Bool) (mantissa : Nat) (exponent : Int) : Float :=
  let sign : Nat := if negative then 1 <<< 63 else 0
  let lowest : Int := max leastExponent (exponent + bitLength mantissa - 53)
  let aligned : Nat :=
    if lowest ≤ exponent then mantissa <<< (exponent - lowest).toNat
    else mantissa >>> (lowest - exponent).toNat
  let bits : Nat :=
    if aligned < leastFull then aligned
    else (lowest - leastExponent + 1).toNat * leastFull + (aligned - leastFull)
  Float.ofBits (UInt64.ofNat (sign + bits))

/-! ## Remainder -/

/-- The remainder of a division that truncates toward zero: it has the sign of the
dividend and is computed exactly.  It is not a number when the dividend is infinite
or the divisor is zero, and it is the dividend when only the divisor is infinite. -/
def remainder (x y : Float) : Float :=
  match parts x, parts y with
  | .finite negative m p, .finite _ n q =>
    if n = 0 then 0.0 / 0.0
    else
      let e := min p q
      ofParts negative (m <<< (p - e).toNat % n <<< (q - e).toNat) e
  | .finite .., .infinite _ => x
  | _, _ => 0.0 / 0.0

end Skein.Number
