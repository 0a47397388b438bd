import Skein.Story.Flow.Basic

set_option autoImplicit false

/-!
# Story: offering choices

The text of a choice is rendered when the choice is offered.  It has up to three regions:
shared text, text only for the list of choices, and text only for the output.
-/

namespace Skein

/-- A region of the text of a choice. -/
inductive Region where
  | shared
  | choiceOnly
  | outputOnly
  deriving DecidableEq, Repr

/-- The text of a choice as far as it has been rendered. -/
structure ChoiceText where
  /-- For the list of choices. -/
  text : String := ""
  /-- For the output, once the choice is made. -/
  echo : String := ""
  tags : List String := []
  /-- The region that comes next. -/
  region : Region := .shared
  deriving DecidableEq, Repr, Inhabited

namespace ChoiceText

/-- Adds text to the current region. -/
def push (c : ChoiceText) (text : String) : ChoiceText :=
  { c with
    text := if c.region = .outputOnly then c.text else c.text ++ text
    echo := if c.region = .choiceOnly then c.echo else c.echo ++ text }

/-- Adds the text of a value, if there is one. -/
def pushValue (c : ChoiceText) (value : Option Value) : ChoiceText :=
  match value with
  | some v => c.push v.text
  | none => c

/-- Adds a tag. -/
def pushTag (c : ChoiceText) (tag : String) : ChoiceText :=
  { c with tags := c.tags ++ [Text.trim tag] }

/-- Passes a border. -/
def mark (c : ChoiceText) : Marker → ChoiceText
  | .start => { c with region := .choiceOnly }
  | .stop => { c with region := .outputOnly }

/-- The text with its blanks collapsed. -/
def finish (c : ChoiceText) : ChoiceText :=
  { c with text := Text.collapse c.text, echo := Text.collapse c.echo }

end ChoiceText

namespace Story

variable (story : Story) (run : Call)

/-! ## Conditionals and sequences -/

/-- The place of the first branch that passes a test. -/
def firstBranch? (test : Expression → Flow Bool) (place : Nat) : List Branch → Flow (Option Nat)
  | [] => return none
  | branch :: rest => do
    if ← test branch.condition then return some place
    else firstBranch? test (place + 1) rest

/-- Whether a case equals the subject; a missing value equals nothing. -/
def isCase (subject : Option Value) (case : Expression) : Flow Bool := do
  match subject, ← case.value (story.host run) with
  | some subject, some value =>
    let equal ← Flow.ofValue (Binary.equal.apply subject value (← get).store.registry)
    return equal.any Value.isTruthy
  | _, _ => return false

/-- The place of the branch that a conditional takes; nothing if it takes none of them. -/
def pickBranch? (subject : Option Expression) (branches : List Branch) : Flow (Option Nat) := do
  match subject with
  | some e =>
    let value ← e.value (story.host run)
    firstBranch? (story.isCase run value) 0 branches
  | none => firstBranch? (·.isTrue (story.host run)) 0 branches

/-- The place of the group that a sequence shows now. -/
def pickGroup? (id : NodeId) (kind : SequenceKind) (groups : Nat) : Flow (Option Nat) :=
  modifyGet (·.nextGroup id kind groups)

/-! ## Rendering -/

mutual

/-- Renders one node of the text of a choice; what makes no sense there is left out. -/
def renderNode (out : ChoiceText) : Node → Flow ChoiceText
  | .text s => return out.push s
  | .interpolation e => do return out.pushValue (← e.value (story.host run))
  | .tag s => return out.pushTag s
  | .marker m => return out.mark m
  | .logic e => do
    let _ ← e.evaluate (story.host run)
    return out
  | .conditional subject branches otherwise => do
    match ← story.pickBranch? run subject branches with
    | some place => renderBranch out place branches
    | none => renderOptional out otherwise
  | .sequence id kind groups => do
    match ← pickGroup? id kind groups.length with
    | some place => renderGroup out place groups
    | none => return out
  | _ => return out

/-- Renders a run of nodes. -/
def render (out : ChoiceText) : List Node → Flow ChoiceText
  | [] => return out
  | node :: rest => do
    let out ← renderNode out node
    render out rest

/-- Renders the branch at a place. -/
def renderBranch (out : ChoiceText) : Nat → List Branch → Flow ChoiceText
  | _, [] => return out
  | 0, ⟨_, content⟩ :: _ => render out content
  | place + 1, _ :: rest => renderBranch out place rest

/-- Renders a run that may be missing. -/
def renderOptional (out : ChoiceText) : Option (List Node) → Flow ChoiceText
  | none => return out
  | some content => render out content

/-- Renders the group at a place. -/
def renderGroup (out : ChoiceText) : Nat → List (List Node) → Flow ChoiceText
  | _, [] => return out
  | 0, group :: _ => render out group
  | place + 1, _ :: rest => renderGroup out place rest

end

/-- The text of a choice; a fallback has none. -/
def choiceText (entry : Entry) : Flow ChoiceText := do
  if entry.fallback then return {}
  else return (← story.render run {} entry.text).finish

/-! ## Offers -/

/-- Whether all conditions hold; those after the first that does not are not evaluated. -/
def allHold : List Expression → Flow Bool
  | [] => return true
  | condition :: rest => do
    if ← condition.isTrue (story.host run) then allHold rest else return false

/-- What the choices of a block have in common. -/
structure Block where
  knot : KnotId
  id : NodeId
  fromThread : Bool
  resume : List (Frame × Scope)

/-- Offers one choice if it is open: it was not made before, or is sticky, and its
conditions hold. -/
def offerEntry (block : Block) (place : Nat) (entry : Entry) : Flow Unit := do
  if !entry.sticky && (← get).isTaken block.knot block.id place then return ()
  if ← story.allHold run entry.conditions then
    let rendered ← story.choiceText run entry
    modify fun s =>
      { s with
        choices := s.choices ++
          [{ text := rendered.text, echo := rendered.echo, tags := rendered.tags
             knot := block.knot, block := block.id, entry := place, result := entry.result
             immediate := entry.immediate, fallback := entry.fallback
             fromThread := block.fromThread, resume := block.resume }] }

/-- Offers the choices from a place on. -/
def offerEntries (block : Block) (place : Nat) : List Entry → Flow Unit
  | [] => return ()
  | entry :: rest => do
    story.offerEntry run block place entry
    offerEntries block (place + 1) rest

/-- Offers the choices of a block that are open.  The flow then comes to rest, except that
a thread gives way to the flow that spawned it. -/
def offer (knot : KnotId) (id : NodeId) (entries : List Entry) : Flow Unit := do
  let s ← get
  if s.inFunction then throw (.structural (.choiceInFunction (story.knotName knot)))
  else
    let block : Block :=
      { knot := knot, id := id, fromThread := s.inThread
        resume := resumePoint s.frames.items s.store.scopes }
    story.offerEntries run block 0 entries
    if block.fromThread then popFrame else modify State.rest

end Story

end Skein
