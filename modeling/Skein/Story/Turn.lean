import Skein.Story.State

set_option autoImplicit false

/-!
# Story: turns

What happens when a flow comes to rest: the choices gathered so far are on offer, or a
fallback is taken, or the story is over.  Taking a choice restores the flow it was offered
in and completes the turn.
-/

namespace Skein.State

/-- Lets the innermost frame run content before all else. -/
def pushContent (s : State) (content : Content) : State :=
  { s with frames := s.frames.mapTop (·.pushContent content) }

/-- Prints the text of a choice that was made. -/
def echo (s : State) (choice : PendingChoice) : State :=
  if choice.immediate || choice.echo.isEmpty then s
  else { s with output := (s.output.pushText choice.echo).lineBreak }

/-- Goes on from a choice: the flow it was offered in is restored, a turn is completed, and
no choice is left on offer. -/
def takeChoice (s : State) (choice : PendingChoice) : State :=
  let s := (s.markTaken choice.knot choice.block choice.entry).completeTurn
  { s with
    frames := .ofList (choice.resume.map (·.1))
    store := s.store.withScopes (choice.resume.map (·.2))
    choices := []
    status := .running }

/-- Makes a choice that is shown. -/
def choose (s : State) (choice : PendingChoice) : State :=
  ((s.takeChoice choice).echo choice).pushContent choice.result

/-- Makes a fallback choice, whose text is never printed. -/
def fallBack (s : State) (choice : PendingChoice) : State :=
  (s.takeChoice choice).pushContent choice.result

/-- Drops every frame and every temporary, and ends the line being built. -/
def clearFlow (s : State) : State :=
  { s with frames := ∅, store := s.store.withScopes [], output := s.output.flush }

/-- Ends the story. -/
def finish (s : State) : State := { s.clearFlow with choices := [], status := .ended }

/-- Brings the flow to rest.  The choices gathered so far are on offer; if none of them is
shown the first fallback is made, and if there is none the story is over. -/
def rest (s : State) : State :=
  let s := s.clearFlow
  if s.visibleChoices.isEmpty then
    match s.choices.head? with
    | some choice => s.fallBack choice
    | none => { s with status := .ended }
  else { s with status := .atChoice }

/-- Ends the current flow: a thread gives way to the flow that spawned it, any other flow
comes to rest. -/
def endFlow (s : State) : State :=
  if s.inThread then s.dropFrame else s.rest

/-- Leaves a frame that has run out of content.  A function that does so gives nothing
back. -/
def finishFrame (s : State) : State :=
  let kind := s.topKind?
  let s := s.dropFrame
  match kind with
  | some .root => s.rest
  | some (.function _) => { s with returned := some none }
  | _ => s

end Skein.State
