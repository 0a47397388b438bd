import Skein.Story.Flow.Divert
import Skein.Story.Flow.Offer

set_option autoImplicit false

/-!
# Story: steps

One step runs one node, or leaves one finished frame.  A function is run step by step
until its frame is gone.
-/

namespace Skein.Story

variable (story : Story) (run : Call)

/-- The content of the branch at a place, or what stands for all others. -/
def branchContent (branches : List Branch) (otherwise : Option Content) : Option Nat → Content
  | some place => (branches[place]?.map (·.content)).getD []
  | none => otherwise.getD []

/-- The content of the group at a place. -/
def groupContent (groups : List Content) (place : Option Nat) : Content :=
  (place.bind (groups[·]?)).getD []

/-- Applies a function to the output. -/
def modifyOutput (f : Output → Output) : Flow Unit := modify fun s => { s with output := f s.output }

/-- Runs one node.  Declarations were carried out when the story was loaded. -/
def execute (knot : KnotId) : Node → Flow Unit
  | .text s => modifyOutput (·.pushText s)
  | .lineBreak => modifyOutput (·.lineBreak)
  | .glue => modifyOutput (·.glue)
  | .tag s => modifyOutput (·.pushTag s)
  | .interpolation e => do
    match ← e.value (story.host run) with
    | some v => modifyOutput (·.pushText v.text)
    | none => return ()
  | .logic e => do
    let evaluation ← e.evaluate (story.host run)
    if evaluation.returned then leaveFunction evaluation.value
  | .divert d => story.divert run d
  | .choice id entries => story.offer run knot id entries
  | .conditional subject branches otherwise => do
    let place ← story.pickBranch? run subject branches
    modify (·.pushContent (branchContent branches otherwise place))
  | .sequence id kind groups => do
    let place ← pickGroup? id kind groups.length
    modify (·.pushContent (groupContent groups place))
  | .marker _ | .global _ | .list _ => return ()

/-- Counts the gather that a cursor comes to, if there is one. -/
def arrive (knot : KnotId) (cursor : Cursor) (s : State) : State :=
  if cursor.arrives then
    match (story.script.knot? knot).bind (·.gatherAt? cursor.index) with
    | some gather => s.visit gather.id
    | none => s
  else s

/-- Runs the next node, or leaves the innermost frame if it has none. -/
def step : Flow Unit := do
  let s ← get
  match s.frames.top? with
  | none => set s.rest
  | some frame =>
    match frame.next? with
    | none => set s.finishFrame
    | some (cursor, frame) =>
      set (story.arrive frame.knot cursor { s with
        frames := s.frames.mapTop fun _ => frame })
      match cursor.peek? with
      | some node => story.execute run frame.knot node
      | none => return ()

/-! ## Functions -/

/-- Runs the function with a name in a frame of its own, repeating a body until the frame is
gone, and takes the value it gave back. -/
def runBy (body : Flow Unit) (name : String) (arguments : List Argument) :
    Flow (Option Value) := do
  match story.script.knotId? name with
  | none => throw (.navigation (.unknownTarget name))
  | some id =>
    let location ← Flow.ofNavigation (story.script.locate (.knot id))
    let knot ← story.knotAt id
    if knot.isFunction then
      let depth := (← get).frames.size
      modify (·.pushFrame (.atLocation (.function (depth - 1)) knot.objects location))
      bindParameters knot arguments
      modify (·.visitAll location.visits)
      let outer ← modifyGet fun s => (s.returned, { s with returned := none })
      Flow.repeatWhile (fun s => depth < s.frames.size) story.config.stepLimit body
        story.config.stepLimit
      modifyGet fun s => (s.returned.join, { s with returned := outer })
    else throw (.structural (.notAFunction name))

/-- Runs the function with a name step by step. -/
def runIn : Call := story.runBy (story.step run)

/-- Runs a function that may call others, to a given depth. -/
def runFunction : (depth : Nat) → Call
  | 0 => fun _ _ => throw .callDepthExceeded
  | depth + 1 => story.runIn (runFunction depth)

/-- Calls a function as deeply as the configuration allows. -/
def callFunction : Call := story.runFunction story.config.callDepth

end Skein.Story
