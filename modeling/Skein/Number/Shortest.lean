import Skein.Number.Parts

set_option autoImplicit false

/-!
# Number: shortest decimals

The decimal shown for a double has the fewest digits that still read back as that
double.  Every real number between the two midpoints around a double rounds to it;
the midpoints themselves do when the mantissa is even.  For one digit, then two, and
so on, the two neighbours of the double on that decimal grid are tested against the
interval in exact arithmetic; the first grid with a hit wins, of two hits the nearer,
and of two equally near ones the larger.
-/

namespace Skein.Number

/-- The positive decimal `digits * 10 ^ exponent`. -/
structure Decimal where
  digits : Nat
  exponent : Int
  deriving DecidableEq, Repr, Inhabited

/-- The number of decimal digits of a natural number. -/
def digitCount (n : Nat) : Nat :=
  (Nat.toDigits 10 n).length

/-- The place `k` with `10 ^ (k - 1) ≤ d < 10 ^ k`. -/
def Decimal.place (d : Decimal) : Int :=
  digitCount d.digits + d.exponent

/-- The reals that round to one double, in quarters of its unit in the last place:
the double is `4 * mantissa`, and the ends lie halfway to its neighbours. -/
structure Interval where
  mantissa : Nat
  /-- The power of two that one quarter is worth. -/
  exponent : Int
  low : Nat
  high : Nat
  /-- Whether the ends belong to the interval. -/
  closed : Bool
  deriving DecidableEq, Repr

/-- The interval around `mantissa * 2 ^ exponent`.  Below a power of two the doubles
lie twice as close together, so the lower end is half as far away. -/
def Interval.around (mantissa : Nat) (exponent : Int) : Interval :=
  let below := if mantissa = leastFull ∧ leastExponent < exponent then 1 else 2
  { mantissa := mantissa
    exponent := exponent - 2
    low := 4 * mantissa - below
    high := 4 * mantissa + 2
    closed := mantissa % 2 = 0 }

/-- The factors `(a, b)` such that the grid point `c * 10 ^ p` and `x` quarters compare
as `c * a` and `x * b` do. -/
def Interval.factors (i : Interval) (p : Int) : Nat × Nat :=
  (Nat.pow 10 p.toNat <<< (-i.exponent).toNat, Nat.pow 10 (-p).toNat <<< i.exponent.toNat)

/-- Whether the grid point `c * 10 ^ p` lies in the interval. -/
def Interval.holds (i : Interval) (p : Int) (c : Nat) : Bool :=
  let (a, b) := i.factors p
  if i.closed then i.low * b ≤ c * a && c * a ≤ i.high * b
  else i.low * b < c * a && c * a < i.high * b

/-- The place `k` with `10 ^ (k - 1) ≤ x < 10 ^ k` for the double `x` itself. -/
def Interval.place (i : Interval) : Int :=
  let (a, b) := i.factors 0
  let x := 4 * i.mantissa * b
  let k : Int := digitCount x - digitCount a
  if a * Nat.pow 10 k.toNat ≤ x * Nat.pow 10 (-k).toNat then k + 1 else k

/-- The grid point with spacing `10 ^ p` that stands for the double, if one does. -/
def Interval.onGrid? (i : Interval) (p : Int) : Option Nat :=
  let (a, b) := i.factors p
  let x := 4 * i.mantissa * b
  let c := x / a
  match i.holds p c, i.holds p (c + 1) with
  | true, true => if x - c * a < (c + 1) * a - x then some c else some (c + 1)
  | true, false => some c
  | false, true => some (c + 1)
  | false, false => none

/-- The first hit on the grids of `n`, `n + 1`, … digits, at most `tries` of them. -/
def Interval.search (i : Interval) (place : Int) (n : Nat) : Nat → Decimal
  | 0 => { digits := i.mantissa, exponent := 0 }
  | tries + 1 =>
    match i.onGrid? (place - n) with
    | some c => { digits := c, exponent := place - n }
    | none => i.search place (n + 1) tries

/-- Seventeen digits tell any two doubles apart. -/
def mostDigits : Nat := 17

/-- The shortest decimal that reads back as `mantissa * 2 ^ exponent`, for a positive
mantissa. -/
def shortest (mantissa : Nat) (exponent : Int) : Decimal :=
  let i := Interval.around mantissa exponent
  i.search i.place 1 mostDigits

end Skein.Number
