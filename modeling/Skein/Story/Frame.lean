import Skein.Expr.Store
import Skein.Story.Script

set_option autoImplicit false

/-!
# Story: frames

A frame is one active flow: a knot, and a stack of cursors into its content.  Frames are
kept with the innermost first, and a frame that was called refers to its caller by depth,
counted from the outermost frame.
-/

namespace Skein

/-- Why a frame was entered, with the depth of the frame it was entered from. -/
inductive FrameKind where
  /-- The main flow. -/
  | root
  | tunnel (returnTo : Nat)
  | function (caller : Nat)
  | thread (spawnedFrom : Nat)
  deriving DecidableEq, Repr

namespace FrameKind

/-- Whether the frame is a tunnel. -/
def isTunnel : FrameKind → Bool
  | tunnel _ => true
  | _ => false

/-- Whether the frame is a function. -/
def isFunction : FrameKind → Bool
  | function _ => true
  | _ => false

/-- Whether the frame is a thread. -/
def isThread : FrameKind → Bool
  | thread _ => true
  | _ => false

/-- The same kind, entered from another depth. -/
def relink (depth : Nat) : FrameKind → FrameKind
  | root => root
  | tunnel _ => tunnel depth
  | function _ => function depth
  | thread _ => thread depth

end FrameKind

/-- A place in a run of content. -/
structure Cursor where
  content : Content
  index : Nat
  stop : Nat
  /-- Whether the cursor walks a knot's own objects and so passes its gathers. -/
  topLevel : Bool
  /-- The place of a gather whose arrival has been counted already. -/
  counted : Option Nat

namespace Cursor

/-- The cursor for a location. -/
def ofLocation (objects : Content) (location : Location) : Cursor :=
  { content := objects, index := location.start, stop := min location.stop objects.length
    topLevel := true, counted := location.gatherStart }

/-- The cursor for content inside other content. -/
def nested (content : Content) : Cursor :=
  { content := content, index := 0, stop := content.length, topLevel := false, counted := none }

/-- Whether nothing is left. -/
def isDone (c : Cursor) : Bool := c.stop ≤ c.index

/-- The next node. -/
def peek? (c : Cursor) : Option Node := if c.isDone then none else c.content[c.index]?

/-- Whether the cursor comes to a place where a gather may start that is not counted yet. -/
def arrives (c : Cursor) : Bool := c.topLevel && c.counted ≠ some c.index

end Cursor

/-- An active flow: its kind, its knot, and its cursors, innermost first. -/
structure Frame where
  kind : FrameKind
  knot : KnotId
  cursors : List Cursor

namespace Frame

/-- The frame at a location. -/
def atLocation (kind : FrameKind) (objects : Content) (location : Location) : Frame :=
  { kind := kind, knot := location.knot, cursors := [.ofLocation objects location] }

/-- The frame moved to a location. -/
def relocate (f : Frame) (objects : Content) (location : Location) : Frame :=
  atLocation f.kind objects location

/-- The frame with content to run before all else. -/
def pushContent (f : Frame) (content : Content) : Frame :=
  if content.isEmpty then f else { f with cursors := .nested content :: f.cursors }

/-- The next node of the frame. -/
def peek? (f : Frame) : Option Node := f.cursors.findSome? Cursor.peek?

/-- Whether nothing is left in the frame. -/
def isExhausted (f : Frame) : Bool := f.cursors.all Cursor.isDone

/-- The innermost cursor with something left, and the cursors around it. -/
def nextCursor? : List Cursor → Option (Cursor × List Cursor)
  | [] => none
  | cursor :: outer => if cursor.isDone then nextCursor? outer else some (cursor, outer)

/-- The cursor at the next node, and the frame past that node; finished cursors are
dropped. -/
def next? (f : Frame) : Option (Cursor × Frame) :=
  (nextCursor? f.cursors).map fun (cursor, outer) =>
    (cursor, { f with cursors := { cursor with index := cursor.index + 1 } :: outer })

end Frame

/-! ## Resuming from a choice -/

/-- A frame and its scope, with the depth it had. -/
structure Kept where
  depth : Nat
  frame : Frame
  scope : Scope

namespace Kept

/-- Adds the next frame to those that are kept, innermost first.  A thread takes the place
of the frame that spawned it, and its kind. -/
def add (kept : List Kept) (next : Kept) : List Kept :=
  match next.frame.kind with
  | .thread spawnedFrom =>
    match kept.dropWhile fun other => other.depth ≠ spawnedFrom with
    | [] => next :: kept
    | spawner :: below =>
      { next with frame := { next.frame with kind := spawner.frame.kind } } :: below
  | _ => next :: kept

/-- The frames with their depths counted anew. -/
def relinked : List Kept → List (Frame × Scope)
  | [] => []
  | kept :: below =>
    ({ kept.frame with kind := kept.frame.kind.relink (below.length - 1) }, kept.scope) ::
      relinked below

/-- Frames with their scopes and depths, all outermost first; a frame without a scope gets
an empty one. -/
def pair (depth : Nat) : List Frame → List Scope → List Kept
  | [], _ => []
  | frame :: frames, [] => ⟨depth, frame, {}⟩ :: pair (depth + 1) frames []
  | frame :: frames, scope :: scopes => ⟨depth, frame, scope⟩ :: pair (depth + 1) frames scopes

end Kept

/-- The frames and scopes to go on with when a choice offered now is made, innermost first.
A thread replaces the flow that spawned it. -/
def resumePoint (frames : List Frame) (scopes : List Scope) : List (Frame × Scope) :=
  Kept.relinked ((Kept.pair 0 frames.reverse scopes.reverse).foldl Kept.add [])

end Skein
