import Skein.Expr.Host
import Skein.Stack
import Skein.Story.Frame
import Skein.Story.Output
import Skein.Story.Sequence

set_option autoImplicit false

/-!
# Story: state

Everything that changes while a story runs: frames, variables, visits, choices, the
randomness and the lines produced.
-/

namespace Skein

/-- How often a section was passed, and the turns completed since the last time. -/
structure Visit where
  times : Nat := 0
  turnsSince : Nat := 0
  deriving DecidableEq, Repr, Inhabited

/-- Where a story stands between two calls of the host. -/
inductive Status where
  /-- There is content left to run. -/
  | running
  /-- Choices are on offer and one has to be made. -/
  | atChoice
  /-- The story is over. -/
  | ended
  deriving DecidableEq, Repr

/-- A choice on offer, with all that is needed to go on from it. -/
structure PendingChoice where
  /-- The text in the list of choices. -/
  text : String
  /-- The text that is printed when the choice is made. -/
  echo : String
  tags : List String
  knot : KnotId
  /-- The block of choices, and the place in it. -/
  block : NodeId
  entry : Nat
  result : Content
  immediate : Bool
  fallback : Bool
  fromThread : Bool
  /-- The frames and scopes to go on with, innermost first. -/
  resume : List (Frame × Scope)

/-- A choice that has been made: its knot, its block and its place in it. -/
structure Taken where
  knot : KnotId
  block : NodeId
  entry : Nat
  deriving DecidableEq, Repr

/-- Everything that changes while a story runs. -/
structure State where
  /-- The active flows, innermost first. -/
  frames : Stack Frame := ∅
  store : Store := {}
  visits : Table NodeId Visit := ∅
  taken : List Taken := []
  sequences : Table NodeId Progress := ∅
  /-- The choices on offer, fallbacks included. -/
  choices : List PendingChoice := []
  status : Status := .running
  /-- The number of completed turns. -/
  turn : Nat := 0
  generator : Random.Generator
  /-- What the last function that ended gave back, until its caller takes it. -/
  returned : Option (Option Value) := none
  output : Output := {}
  externals : Externals := ∅
  /-- The tags of the line read last. -/
  lineTags : List String := []
  /-- The number of observers registered so far. -/
  observerCount : Nat := 0

namespace State

/-- The state before anything has happened. -/
def ofSeed (seed : UInt64) : State := { generator := .ofSeed seed }

/-! ## Visits -/

/-- Counts a pass through a section. -/
def visit (s : State) (id : NodeId) : State :=
  let old := (s.visits.get? id).getD {}
  { s with visits := s.visits.insert id { times := old.times + 1, turnsSince := 0 } }

/-- Counts a pass through each section, in order. -/
def visitAll (s : State) (ids : List NodeId) : State := ids.foldl visit s

/-- What is known of a section; all zero if it was never visited. -/
def visitOf (s : State) (id : NodeId) : Visit := (s.visits.get? id).getD {}

/-- How often a section was visited. -/
def timesVisited (s : State) (id : NodeId) : Nat := (s.visitOf id).times

/-- Turns since a section was visited, or -1 if it never was. -/
def turnsSince (s : State) (id : NodeId) : Int :=
  match s.visits.get? id with
  | some v => if 0 < v.times then v.turnsSince else -1
  | none => -1

/-- Ends the current turn. -/
def completeTurn (s : State) : State :=
  { s with
    turn := s.turn + 1
    visits := s.visits.mapValues fun v => { v with turnsSince := v.turnsSince + 1 } }

/-! ## Choices -/

/-- Whether a choice has been made. -/
def isTaken (s : State) (knot : KnotId) (block : NodeId) (entry : Nat) : Bool :=
  (⟨knot, block, entry⟩ : Taken) ∈ s.taken

/-- Notes that a choice has been made. -/
def markTaken (s : State) (knot : KnotId) (block : NodeId) (entry : Nat) : State :=
  if s.isTaken knot block entry then s else { s with taken := ⟨knot, block, entry⟩ :: s.taken }

/-- The choices that are shown. -/
def visibleChoices (s : State) : List PendingChoice := s.choices.filter (!·.fallback)

/-! ## Sequences and randomness -/

/-- Picks the group that a sequence shows now. -/
def nextGroup (s : State) (id : NodeId) (kind : SequenceKind) (groups : Nat) :
    Option Nat × State :=
  let (group, progress, generator) :=
    Progress.pick kind groups ((s.sequences.get? id).getD {}) s.generator
  (group, { s with sequences := s.sequences.insert id progress, generator := generator })

/-- An integer between two bounds, both included. -/
def random (low high : Int64) (s : State) : Int64 × State :=
  let (n, generator) := s.generator.between low high
  (n, { s with generator := generator })

/-- Starts the randomness anew. -/
def reseed (seed : UInt64) (s : State) : State := { s with generator := .ofSeed seed }

/-! ## Flow -/

/-- The knot of the innermost frame. -/
def currentKnot? (s : State) : Option KnotId := s.frames.top?.map (·.knot)

/-- The kind of the innermost frame. -/
def topKind? (s : State) : Option FrameKind := s.frames.top?.map (·.kind)

/-- Whether the innermost frame is a tunnel. -/
def inTunnel (s : State) : Bool := s.topKind?.any FrameKind.isTunnel

/-- Whether the innermost frame is a function. -/
def inFunction (s : State) : Bool := s.topKind?.any FrameKind.isFunction

/-- Whether the innermost frame is a thread. -/
def inThread (s : State) : Bool := s.topKind?.any FrameKind.isThread

/-- Enters a frame; the first frame takes the scope that is always there. -/
def pushFrame (s : State) (frame : Frame) : State :=
  { s with
    frames := s.frames.push frame
    store := if s.frames.isEmpty then s.store.resetScope else s.store.pushScope }

/-- Leaves the innermost frame and its scope; with the last frame the scope is only
emptied. -/
def dropFrame (s : State) : State :=
  { s with
    frames := s.frames.pop
    store := if s.frames.pop.isEmpty then s.store.resetScope else s.store.popScope }

/-- Whether there is a line to read or content to run. -/
def canContinue (s : State) : Bool := s.output.hasLine || s.status = .running

/-- Whether the story is over and every line has been read. -/
def isFinished (s : State) : Bool := !s.canContinue && s.status = .ended

/-- Whether the next node starts new text. -/
def startsText (s : State) : Bool :=
  match s.frames.top?.bind Frame.peek? with
  | some (.text _) | some (.interpolation _) => true
  | _ => false

/-- Whether the oldest finished line can no longer change: the next node starts new text.
What is silent after a line (diverts, logic, glue) runs before the line is given out. -/
def lineSettled (s : State) : Bool := s.output.hasLine && s.startsText

end State

end Skein
