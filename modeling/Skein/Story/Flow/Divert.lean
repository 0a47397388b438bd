import Skein.Story.Flow.Basic

set_option autoImplicit false

/-!
# Story: diverts

How control moves: along plain diverts, into tunnels, threads and functions, and back out
of them.
-/

namespace Skein.Story

variable (story : Story) (run : Call)

/-! ## Parameters -/

/-- Binds arguments to the parameters of a knot in the innermost scope. -/
def bindEach (target : String) : List Parameter → List Argument → Flow Unit
  | parameter :: parameters, argument :: arguments => do
    if parameter.byRef then
      match argument.origin with
      | some origin => Flow.modifyStore (·.addAlias parameter.name origin)
      | none => throw (.structural (.byRefArgument target parameter.name))
    else Flow.modifyStore (·.declareTemporary parameter.name argument.value)
    bindEach target parameters arguments
  | _, _ => return ()

/-- Binds arguments to the parameters of a knot, as many as it has. -/
def bindParameters (knot : Knot) (arguments : List Argument) : Flow Unit :=
  if knot.parameters.length = arguments.length then bindEach knot.name knot.parameters arguments
  else
    throw (.structural
      (.argumentCount knot.name knot.parameters.length arguments.length))

/-- Binds arguments if the address is that of a knot; stitches and gathers have no
parameters. -/
def bindAt (address : Address) (knot : Knot) (arguments : List Argument) : Flow Unit :=
  match address with
  | .knot _ => bindParameters knot arguments
  | _ => return ()

/-- The variable that an expression consists of, as it is known to everyone. -/
def argumentOrigin (s : State) (e : Expression) : Option String :=
  match e.tokens with
  | [.ident name] => some (s.store.canonical name)
  | _ => none

/-- The arguments of a divert. -/
def divertArguments : List Expression → Flow (List Argument)
  | [] => return []
  | e :: rest => do
    match ← e.value (story.host run) with
    | none => throw (.expression (.missingValue "divert argument"))
    | some value =>
      let origin := argumentOrigin (← get) e
      return { value := value, origin := origin } :: (← divertArguments rest)

/-! ## Movement -/

/-- Finds where a path leads from the current knot. -/
def find (path : String) : Flow (Address × Location) := do
  match story.script.resolve path (← get).currentKnot? with
  | .error fault => throw fault
  | .ok address => return (address, ← Flow.ofNavigation (story.script.locate address))

/-- Moves the innermost frame to a location. -/
def relocate (knot : Knot) (location : Location) : Flow Unit := do
  let s ← get
  if s.frames.isEmpty then throw (.navigation .emptyFrameStack)
  else set { s with frames := s.frames.mapTop (·.relocate knot.objects location) }

/-- Moves the innermost frame to a target.  Temporaries are lost when the knot changes,
since they belong to the knot that declared them. -/
def goto (target : String) (args : List Expression) : Flow Unit := do
  if target = endTarget then modify State.finish
  else if target = doneTarget then modify State.endFlow
  else
    let current := (← get).currentKnot?
    let (address, location) ← story.find target
    let arguments ← story.divertArguments run args
    let knot ← story.knotAt location.knot
    relocate knot location
    if current ≠ some location.knot then Flow.modifyStore Store.resetScope
    bindAt address knot arguments
    modify (·.visitAll location.visits)

/-- Enters a frame at a target. -/
def call (kind : Nat → FrameKind) (target : String) (args : List Expression) : Flow Unit := do
  let (address, location) ← story.find target
  let arguments ← story.divertArguments run args
  let knot ← story.knotAt location.knot
  modify fun s => s.pushFrame (.atLocation (kind (s.frames.size - 1)) knot.objects location)
  bindAt address knot arguments
  modify (·.visitAll location.visits)

/-- Leaves a tunnel, and goes on to a target if there is one. -/
def leaveTunnel (d : Divert) : Flow Unit := do
  if (← get).inTunnel then
    modify State.dropFrame
    match d.target with
    | some target => story.goto run target d.args
    | none => return ()
  else throw (.navigation .tunnelReturnWithoutTunnel)

/-- Carries out a divert.  Functions may not divert. -/
def divert (d : Divert) : Flow Unit := do
  if d.kind = .tunnelReturn then story.leaveTunnel run d
  else
    let target := d.target.getD ""
    if (← get).inFunction then throw (.navigation (.divertInFunction target))
    else
      match d.kind with
      | .tunnel => story.call run .tunnel target d.args
      | .thread => story.call run .thread target d.args
      | _ => story.goto run target d.args

/-- Leaves a function with a value. -/
def leaveFunction (value : Option Value) : Flow Unit := do
  if (← get).inFunction then modify fun s => { s.dropFrame with returned := some value }
  else throw (.structural .returnOutsideFunction)

/-- Drops whatever is going on and starts the main flow at a path. -/
def startAt (path : String) : Flow Unit := do
  match story.script.resolve path none with
  | .error fault => throw fault
  | .ok address =>
    let location ← Flow.ofNavigation (story.script.locate address)
    let knot ← story.knotAt location.knot
    modify fun s =>
      { s with choices := [], frames := ∅, store := s.store.withScopes [] }.pushFrame
        (.atLocation .root knot.objects location)
    bindAt address knot []
    modify fun s => { s.visitAll location.visits with status := .running }

end Skein.Story
