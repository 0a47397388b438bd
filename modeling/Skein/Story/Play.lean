import Skein.Story.Flow.Step

set_option autoImplicit false

/-!
# Story: playing a story

Starting a story, reading it line by line, making choices, and looking at its variables
and visits from outside.
-/

namespace Skein.Story

variable (story : Story)

/-- The story as the host of its own expressions, with its own functions. -/
def environment : Host State StoryFault := story.host story.callFunction

/-! ## Starting -/

/-- Defines a list and the global with the items it starts with. -/
def declareList (l : ListDeclaration) : Flow Unit := do
  let entries := l.entries.map fun entry => (entry.label, entry.value)
  let (id, registry) ← Flow.ofValue ((← get).store.registry.define l.name entries)
  Flow.modifyStore fun store => { store with registry := registry }
  let selected :=
    match registry.get? id with
    | some definition =>
      (l.entries.filter (·.selected)).filterMap fun entry => definition.item? entry.label
    | none => []
  Flow.modifyStore (·.defineGlobal l.name (.list ((Selection.ofItems selected).withOrigin id)))

/-- Defines a global variable or a constant. -/
def declareGlobal (g : GlobalDeclaration) : Flow Unit := do
  match ← g.init.value story.environment with
  | none => throw (.expression (.missingValue "global initializer"))
  | some value =>
    if g.constant then Flow.modifyStore (·.defineConstant g.name value)
    else Flow.modifyStore (·.defineGlobal g.name value)

/-- The list declaration that a node is. -/
def listOf? : Node → Option ListDeclaration
  | .list l => some l
  | _ => none

/-- The declaration of a variable that a node is. -/
def globalOf? : Node → Option GlobalDeclaration
  | .global g => some g
  | _ => none

/-- Declares all lists and then all variables, wherever they stand in the script; the
first values of variables may name items of lists. -/
def declareAll : Flow Unit := do
  let nodes := story.script.nodes
  (nodes.filterMap listOf?).forM declareList
  (nodes.filterMap globalOf?).forM story.declareGlobal

/-- Where the story starts. -/
def entryPoint? : Option String :=
  story.config.entryPoint.or
    ((story.script.firstKnot?.bind story.script.knot?).map (·.name))

/-- Declares everything and enters the story. -/
def load : Flow Unit := do
  story.declareAll
  match story.entryPoint? with
  | some path => story.startAt path
  | none => throw (.structural .noEntryPoint)

/-- The state at the start of a story. -/
def start : Except StoryFault State :=
  match story.load.run (.ofSeed story.config.seed) with
  | .ok _ s => .ok s
  | .error fault _ => .error fault

/-! ## Reading -/

/-- Repeats a body until the next line is settled or the flow comes to rest, and takes the
line. -/
def lineBy (body : Flow Unit) : Flow String := do
  if (← get).canContinue then
    Flow.repeatWhile (fun s => s.status = .running && !s.lineSettled) story.config.stepLimit body
      story.config.stepLimit
    let s ← get
    let (line, output) := s.output.popLine
    let line := line.getD {}
    set { s with output := output, lineTags := line.tags }
    return line.text
  else throw .cannotContinue

/-- Runs step by step until the next line is settled or the flow comes to rest, and takes
the line. -/
def continueLine : Flow String := story.lineBy (story.step story.callFunction)

/-- Reads lines while there are any, at most `bound` times, after those read already
(latest first).  Nothing if more could be read then. -/
def readLinesBy (readLine : Flow String) (read : List String) :
    (bound : Nat) → Flow (Option (List String))
  | 0 => do if (← get).canContinue then return none else return some read.reverse
  | bound + 1 => do
    if (← get).canContinue then
      let line ← readLine
      readLinesBy readLine (if line.isEmpty then read else line :: read) bound
    else return some read.reverse

/-- Reads lines while there are any and joins those that are not empty.  Nothing is answered
if `bound` lines are not enough. -/
def linesBy (readLine : Flow String) (bound : Nat) : Flow (Option String) := do
  return (← readLinesBy readLine [] bound).map ("\n".intercalate ·)

/-- Runs until the flow comes to rest, and joins the lines that are not empty.  A story may
produce lines for ever, so the number of lines is bounded. -/
def continueMaximally (bound : Nat) : Flow (Option String) := linesBy story.continueLine bound

/-! ## Choices -/

/-- Makes the choice at a place among those that are shown. -/
def chooseIndex (index : Nat) : Flow Unit := do
  let s ← get
  let shown := s.visibleChoices
  match shown[index]? with
  | some choice =>
    if s.status = .atChoice then set (s.choose choice)
    else throw (.invalidChoice index shown.length)
  | none => throw (.invalidChoice index shown.length)

/-- Abandons the current flow and goes on from a path. -/
def choosePath (path : String) : Flow Unit := story.startAt path

/-! ## Variables, visits and host functions -/

/-- Checks that a value is known to the list definitions. -/
def checkValue : Value → Flow Unit
  | .list l => do Flow.ofValue ((← get).store.registry.check l)
  | _ => return ()

/-- Writes a global variable that has been declared. -/
def setVariable (name : String) (value : Value) : Flow Unit := do
  let store := (← get).store
  if store.hasGlobal name || store.isConstant name then
    checkValue value
    let store ← Flow.ofExpr (store.set name value)
    Flow.modifyStore fun _ => store
  else throw (.unknownVariable name)

/-- How often the section at a path was visited. -/
def visitCount (s : State) (path : String) : Except StoryFault Nat := do
  return s.timesVisited (← story.idAt s path)

/-- Turns since the section at a path was visited, -1 if it never was. -/
def turnsSince (s : State) (path : String) : Except StoryFault Int := do
  return s.turnsSince (← story.idAt s path)

/-- Registers a new observer of a global variable. -/
def observe (name : String) : Flow ObserverId :=
  modifyGet fun s =>
    let id : ObserverId := ⟨s.observerCount⟩
    (id, { s with observerCount := s.observerCount + 1, store := s.store.observe name id })

/-- Provides a host function, in place of one of the same name. -/
def bind (name : String) (f : External) : Flow Unit :=
  modify fun s => { s with externals := s.externals.insert name f }

end Skein.Story
