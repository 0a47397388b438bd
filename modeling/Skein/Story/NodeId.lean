set_option autoImplicit false

/-!
# Story: identities

Every knot, stitch, gather, choice and sequence has an identity that does not depend on
its name or place.  Visit counts, taken choices and sequence cursors are kept by it.
-/

namespace Skein

/-- The identity of a piece of content: a 32-bit number. -/
structure NodeId where
  number : UInt32
  deriving DecidableEq, Repr, Inhabited

/-- How an identity is shown. -/
def NodeId.text (id : NodeId) : String := "#" ++ toString id.number.toNat

/-- A source of fresh identities: the next one to hand out. -/
structure IdSource where
  next : UInt32 := 0
  deriving DecidableEq, Repr, Inhabited

namespace IdSource

/-- The source that continues after an identity; it stays at the last number when there
is none after it. -/
def after (last : NodeId) : IdSource :=
  { next := if last.number.toNat + 1 < UInt32.size then last.number + 1 else last.number }

/-- A fresh identity, and the source without it. -/
def take (source : IdSource) : NodeId × IdSource :=
  (⟨source.next⟩, ⟨source.next + 1⟩)

/-- The next identities, in order. -/
def takeMany (source : IdSource) : Nat → List NodeId
  | 0 => []
  | n + 1 =>
    let (id, source) := source.take
    id :: source.takeMany n

end IdSource

end Skein
