import Skein.Expr.Evaluate
import Skein.Story.Config
import Skein.Story.Turn

set_option autoImplicit false

/-!
# Story: flow

Running content changes the state and may fail.  A failure leaves the state as it was
reached; nothing is taken back.

Expressions call story functions, and functions run content with further expressions.
Everything between the two takes the way to call a function as an argument `run`.
-/

namespace Skein

/-- An action on the state of a story. -/
abbrev Flow := EStateM StoryFault State

/-- A way to call a story function by name. -/
abbrev Call := String → List Argument → Flow (Option Value)

namespace Flow

variable {α : Type}

/-- The outcome of an evaluation on values. -/
def ofValue : Except ValueFault α → Flow α
  | .ok a => pure a
  | .error fault => throw (.expression (.value fault))

/-- The outcome of an evaluation on variables. -/
def ofExpr : Except ExprFault α → Flow α
  | .ok a => pure a
  | .error fault => throw (.expression fault)

/-- The outcome of a search for a place. -/
def ofNavigation : Except NavigationFault α → Flow α
  | .ok a => pure a
  | .error fault => throw (.navigation fault)

/-- Applies a function to the store. -/
def modifyStore (f : Store → Store) : Flow Unit := modify fun s => { s with store := f s.store }

/-- Repeats a body while a test holds, at most `remaining` times; a test that still holds
then is a failure, worded with the whole limit. -/
def repeatWhile (test : State → Bool) (limit : Nat) (body : Flow Unit) :
    (remaining : Nat) → Flow Unit
  | 0 => do if test (← get) then throw (.stepLimitExceeded limit)
  | remaining + 1 => do
    if test (← get) then
      body
      repeatWhile test limit body remaining

end Flow

namespace Story

/-- The section that a path names now. -/
def idAt (story : Story) (s : State) (path : String) : Except StoryFault NodeId := do
  let address ← story.script.resolve path s.currentKnot?
  match story.script.idOf? address with
  | some id => return id
  | none => throw (.navigation (.unknownTarget path))

/-- Calls a host function. -/
def callExternal (name : String) (args : List Value) : Flow (Option Value) := do
  let (answer, externals) ← Flow.ofExpr ((← get).externals.call name args)
  modify fun s => { s with externals := externals }
  return answer

/-- The story as the host of its own expressions. -/
def host (story : Story) (run : Call) : Host State StoryFault where
  fault := .expression
  store := State.store
  withStore s store := { s with store := store }
  readCount s path := (story.idAt s path).toOption.map fun id => Int64.ofNat (s.timesVisited id)
  turnsSince s path := (story.idAt s path).toOption.map fun id => Int64.ofInt (s.turnsSince id)
  turnIndex s := Int64.ofNat s.turn
  choiceCount s := Int64.ofNat s.visibleChoices.length
  random := State.random
  reseed := State.reseed
  isStoryFunction _ := story.script.isFunction
  callStory := run
  isExternal s name := s.externals.contains name
  callExternal := callExternal

/-- The name of a knot. -/
def knotName (story : Story) (id : KnotId) : String :=
  match story.script.knot? id with
  | some knot => knot.name
  | none => id.text

/-- The knot at a place. -/
def knotAt (story : Story) (id : KnotId) : Flow Knot :=
  match story.script.knot? id with
  | some knot => return knot
  | none => throw (.navigation (.unknownTarget id.text))

/-- Leaves the innermost frame; there has to be one. -/
def popFrame : Flow Unit := do
  if (← get).frames.isEmpty then throw (.navigation .emptyFrameStack)
  else modify State.dropFrame

end Story

end Skein
