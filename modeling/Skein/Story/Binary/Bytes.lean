import Skein.Story.Script

set_option autoImplicit false

/-!
# Story: the codes of the binary form

A story file has a magic number, a version, and a counted table of knots.  Numbers of
fixed width have their low byte first.  Identities are written in groups of seven bits,
low group first, and the last group has its high bit set.  The functions here turn numbers
and kinds into bytes and back.
-/

namespace Skein.Binary

/-- A run of bytes. -/
abbrev Bytes := List UInt8

/-- The first bytes of a story file. -/
def magic : Bytes := [0x49, 0x4e, 0x4b, 0x42]

/-- The version of the format. -/
def version : UInt8 := 1

/-! ## Numbers -/

/-- The low bytes of a number, as many as `width`, lowest first. -/
def littleEndian : (width : Nat) → Nat → Bytes
  | 0, _ => []
  | width + 1, n => UInt8.ofNat (n % 256) :: littleEndian width (n / 256)

/-- The number with the given bytes, lowest first. -/
def ofLittleEndian : Bytes → Nat
  | [] => 0
  | byte :: rest => byte.toNat + 256 * ofLittleEndian rest

/-- The most groups that an identity has. -/
def maxGroups : Nat := 5

/-- A number in groups of seven bits, lowest first, of which the last is marked. -/
def groups : (bound : Nat) → Nat → Bytes
  | 0, _ => []
  | bound + 1, n =>
    if n < 128 then [UInt8.ofNat (n + 128)] else UInt8.ofNat (n % 128) :: groups bound (n / 128)

/-! ## Kinds -/

/-- The byte of a truth value. -/
def boolCode : Bool → UInt8
  | false => 0
  | true => 1

/-- The truth value of a byte. -/
def boolOf? : UInt8 → Option Bool
  | 0 => some false
  | 1 => some true
  | _ => none

/-- The byte of a kind of divert. -/
def divertCode : DivertKind → UInt8
  | .goto => 0
  | .tunnel => 1
  | .tunnelReturn => 2
  | .thread => 3

/-- The kind of divert of a byte. -/
def divertOf? : UInt8 → Option DivertKind
  | 0 => some .goto
  | 1 => some .tunnel
  | 2 => some .tunnelReturn
  | 3 => some .thread
  | _ => none

/-- The byte of a border. -/
def markerCode : Marker → UInt8
  | .start => 0
  | .stop => 1

/-- The border of a byte. -/
def markerOf? : UInt8 → Option Marker
  | 0 => some .start
  | 1 => some .stop
  | _ => none

/-- The byte of a kind of sequence. -/
def sequenceCode : SequenceKind → UInt8
  | .sequence => 0
  | .cycle => 1
  | .onceOnly => 2
  | .shuffle => 3
  | .shuffleOnce => 4
  | .shuffleStop => 5

/-- The kind of sequence of a byte. -/
def sequenceOf? : UInt8 → Option SequenceKind
  | 0 => some .sequence
  | 1 => some .cycle
  | 2 => some .onceOnly
  | 3 => some .shuffle
  | 4 => some .shuffleOnce
  | 5 => some .shuffleStop
  | _ => none

/-- The byte of the marks of a choice. -/
def entryCode (sticky fallback immediate : Bool) : UInt8 :=
  (if sticky then 1 else 0) + (if fallback then 2 else 0) + (if immediate then 4 else 0)

/-- Whether a choice is marked as sticky. -/
def isSticky (flags : UInt8) : Bool := flags &&& 1 ≠ 0

/-- Whether a choice is marked as a fallback. -/
def isFallback (flags : UInt8) : Bool := flags &&& 2 ≠ 0

/-- Whether a choice is marked as going on at once. -/
def isImmediate (flags : UInt8) : Bool := flags &&& 4 ≠ 0

end Skein.Binary
