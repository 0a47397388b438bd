set_option autoImplicit false

/-!
# Random: the keystream

Randomness comes from a stream of 32-bit words that a 256-bit key determines.  Word
`i` belongs to block `i / 16`; a block mixes the four constant words, the key and the
block's number through six double rounds and adds what it started from.
-/

namespace Skein.Random

/-- Eight words of key. -/
abbrev Key := Vector UInt32 8

/-- Sixteen words: the state that is mixed, and the block that results. -/
abbrev Block := Vector UInt32 16

/-- Rotation to the left by `n` of 32 bits, for `0 < n < 32`. -/
def rotateLeft (x : UInt32) (n : UInt32) : UInt32 :=
  (x <<< n) ||| (x >>> (32 - n))

/-- Rotation to the right by `n` of 32 bits, for `n < 32`. -/
def rotateRight (x : UInt32) (n : UInt32) : UInt32 :=
  if n = 0 then x else (x >>> n) ||| (x <<< (32 - n))

/-- Mixes the four words at the given places. -/
def quarterRound (s : Block) (a b c d : Fin 16) : Block :=
  let s := s.set a (s[a] + s[b])
  let s := s.set d (rotateLeft (s[d] ^^^ s[a]) 16)
  let s := s.set c (s[c] + s[d])
  let s := s.set b (rotateLeft (s[b] ^^^ s[c]) 12)
  let s := s.set a (s[a] + s[b])
  let s := s.set d (rotateLeft (s[d] ^^^ s[a]) 8)
  let s := s.set c (s[c] + s[d])
  s.set b (rotateLeft (s[b] ^^^ s[c]) 7)

/-- Mixes the four columns and then the four diagonals. -/
def doubleRound (s : Block) : Block :=
  let s := quarterRound s 0 4 8 12
  let s := quarterRound s 1 5 9 13
  let s := quarterRound s 2 6 10 14
  let s := quarterRound s 3 7 11 15
  let s := quarterRound s 0 5 10 15
  let s := quarterRound s 1 6 11 12
  let s := quarterRound s 2 7 8 13
  quarterRound s 3 4 9 14

/-- The state a block starts from: constants, key, block number, two zero words. -/
def initialState (key : Key) (number : Nat) : Block :=
  #v[0x61707865, 0x3320646e, 0x79622d32, 0x6b206574,
     key[0], key[1], key[2], key[3], key[4], key[5], key[6], key[7],
     UInt32.ofNat number, UInt32.ofNat (number / UInt32.size), 0, 0]

/-- The sixteen words of a block. -/
def block (key : Key) (number : Nat) : Block :=
  let start := initialState key number
  let mixed := Nat.repeat doubleRound 6 start
  mixed.zipWith (· + ·) start

/-- Word `i` of the stream. -/
def word (key : Key) (i : Nat) : UInt32 :=
  (block key (i / 16))[i % 16]

/-! ## Keys from seeds -/

/-- One step of the sequence that spreads a seed over the key. -/
def nextSeed (seed : UInt64) : UInt64 :=
  seed * 6364136223846793005 + 11634580027462260723

/-- The key word that one state of the sequence gives. -/
def seedWord (seed : UInt64) : UInt32 :=
  rotateRight (((seed >>> 18) ^^^ seed) >>> 27).toUInt32 (seed >>> 59).toUInt32

/-- The state of the seed sequence after `n` steps. -/
def seedAfter (seed : UInt64) (n : Nat) : UInt64 :=
  Nat.repeat nextSeed n seed

/-- The key that a seed stands for. -/
def keyOfSeed (seed : UInt64) : Key :=
  Vector.ofFn fun i => seedWord (seedAfter seed (i + 1))

end Skein.Random
