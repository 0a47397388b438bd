import Skein.Random.Keystream

set_option autoImplicit false

/-!
# Random: draws

A generator is a place in a keystream.  A draw takes the next one or two words; a
choice among `range` possibilities scales a draw by a widening multiplication, with
one further draw to correct the bias when the low half is close to the edge.
-/

namespace Skein.Random

/-- A place in a keystream: the key and the number of words already taken. -/
structure Generator where
  key : Key
  position : Nat
  deriving DecidableEq

namespace Generator

/-- The generator that a seed starts. -/
def ofSeed (seed : UInt64) : Generator :=
  { key := keyOfSeed seed, position := 0 }

/-- A number below `2 ^ 32`: the next word. -/
def draw32 (g : Generator) : Nat × Generator :=
  ((word g.key g.position).toNat, { g with position := g.position + 1 })

/-- A number below `2 ^ 64`: the next two words, the low one first. -/
def draw64 (g : Generator) : Nat × Generator :=
  ((word g.key g.position).toNat + (word g.key (g.position + 1)).toNat * UInt32.size,
    { g with position := g.position + 2 })

/-- A number below `range`, from draws below `size`, for `0 < range ≤ size`. -/
def scale (size : Nat) (draw : Generator → Nat × Generator) (range : Nat) (g : Generator) :
    Nat × Generator :=
  let (x, g) := draw g
  let high := x * range / size
  let low := x * range % size
  if size - range < low then
    let (y, g) := draw g
    (if size ≤ low + y * range / size then high + 1 else high, g)
  else (high, g)

/-- An index below `n`, for `0 < n < 2 ^ 64`.  A number of 32 bits is scaled as long as `n` is one
too. -/
def index (n : Nat) (g : Generator) : Nat × Generator :=
  if n < UInt32.size then scale UInt32.size draw32 n g else scale UInt64.size draw64 n g

/-- An integer from `low` to `high`, both included, for `low ≤ high`.  When every
integer is possible the draw itself is the answer. -/
def between (low high : Int64) (g : Generator) : Int64 × Generator :=
  let range := ((high.toInt - low.toInt + 1) % UInt64.size).toNat
  if range = 0 then
    let (x, g) := draw64 g
    (Int64.ofNat x, g)
  else
    let (x, g) := scale UInt64.size draw64 range g
    (low + Int64.ofNat x, g)

end Generator

end Skein.Random
