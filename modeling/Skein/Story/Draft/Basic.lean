import Skein.Story.Script

set_option autoImplicit false

/-!
# Story: drafts

A draft describes a story without identities and with expressions as source text.  Turning
it into a script hands out identities in reading order, to a choice or a sequence before
what it holds, and reads the expressions.  What cannot be read is left out and the first
fault is remembered.
-/

namespace Skein.Draft

mutual

/-- A piece of content in a draft. -/
inductive Part where
  | text (s : String)
  | lineBreak
  | glue
  | marker (m : Marker)
  | tag (s : String)
  | interpolation (source : String)
  | logic (source : String)
  | global (name source : String) (constant : Bool)
  | list (l : ListDeclaration)
  | divert (kind : DivertKind) (target : Option String) (args : List String)
  /-- A node that is ready as it is. -/
  | node (n : Node)
  /-- A block of choices, each with what is said of it. -/
  | choice (entries : List (List Trait))
  /-- Branches, with a subject that their conditions are compared with or without one. -/
  | conditional (subject : Option String) (arms : List Arm)
  | sequence (kind : SequenceKind) (groups : List (List Part))

/-- Something said of a choice.  A later text or result takes the place of an earlier. -/
inductive Trait where
  | text (parts : List Part)
  | result (parts : List Part)
  /-- One more condition. -/
  | condition (source : String)
  | sticky
  | fallback
  | immediate

/-- An arm of a conditional. -/
inductive Arm where
  | when (source : String) (parts : List Part)
  /-- What stands for all other cases; a later one takes the place of an earlier. -/
  | otherwise (parts : List Part)

end

/-- The text of a choice, the same in the list of choices and in the output. -/
def Trait.label (s : String) : Trait := .text [.text s]

/-- The text of a choice in three regions. -/
def Trait.regions (shared choiceOnly outputOnly : String) : Trait :=
  .text [.text shared, .marker .start, .text choiceOnly, .marker .stop, .text outputOnly]

/-- A piece of a knot in a draft. -/
inductive KnotPart where
  | part (p : Part)
  | parameter (p : Parameter)
  /-- The start of a stitch. -/
  | stitch (name : String)
  /-- The start of a gather, right after a block of choices. -/
  | gather (name : String)

/-- A piece of a draft. -/
inductive Section where
  | knot (name : String) (isFunction : Bool) (parts : List KnotPart)
  /-- A knot that is ready as it is. -/
  | ready (k : Knot)
  /-- An identity that is not used. -/
  | skippedId

/-! ## Drafting -/

/-- The identities left, and the first fault. -/
structure Desk where
  ids : IdSource := {}
  fault : Option StoryFault := none

/-- A part of the work on a draft. -/
abbrev Work := StateM Desk

/-- Takes an identity. -/
def freshId : Work NodeId :=
  modifyGet fun desk =>
    let (id, ids) := desk.ids.take
    (id, { desk with ids := ids })

/-- Remembers a fault unless there was one before. -/
def report (fault : StoryFault) : Work Unit :=
  modify fun desk => { desk with fault := desk.fault.or (some fault) }

/-- Reads an expression. -/
def expression? (source : String) : Work (Option Expression) := do
  match Expression.parse Symbols.none source with
  | .ok e => return some e
  | .error fault =>
    report (.expression fault)
    return none

/-- Reads expressions, after those read already (latest first). -/
def expressions (done : List Expression) : List String → Work (List Expression)
  | [] => return done.reverse
  | source :: rest => do
    let e ← expression? source
    expressions (e.toList ++ done) rest

/-! ## Content -/

mutual

/-- The node that a part stands for, if it can be read. -/
def node? : Part → Work (Option Node)
  | .text s => return some (.text s)
  | .lineBreak => return some .lineBreak
  | .glue => return some .glue
  | .marker m => return some (.marker m)
  | .tag s => return some (.tag s)
  | .interpolation source => do return (← expression? source).map .interpolation
  | .logic source => do return (← expression? source).map .logic
  | .global name source constant => do
    return (← expression? source).map fun e =>
      .global { name := name, init := e, constant := constant }
  | .list l => return some (.list l)
  | .divert kind target args => do
    return some (.divert { kind := kind, target := target, args := ← expressions [] args })
  | .node n => return some n
  | .choice entries => do
    let id ← freshId
    return some (.choice id (← entriesOf [] entries))
  | .conditional none arms => do
    let (branches, otherwise) ← armsOf [] none arms
    return some (.conditional none branches otherwise)
  | .conditional (some source) arms => do
    match ← expression? source with
    | none => return none
    | some subject =>
      let (branches, otherwise) ← armsOf [] none arms
      return some (.conditional (some subject) branches otherwise)
  | .sequence kind groups => do
    let id ← freshId
    return some (.sequence id kind (← groupsOf [] groups))

/-- The content of parts, after the nodes of earlier ones (latest first). -/
def content (done : List Node) : List Part → Work Content
  | [] => return done.reverse
  | part :: rest => do
    let n ← node? part
    content (n.toList ++ done) rest

/-- A choice with what is said of it. -/
def entryOf (entry : Entry) : List Trait → Work Entry
  | [] => return entry
  | .text parts :: rest => do entryOf { entry with text := ← content [] parts } rest
  | .result parts :: rest => do entryOf { entry with result := ← content [] parts } rest
  | .condition source :: rest => do
    let e ← expression? source
    entryOf { entry with conditions := entry.conditions ++ e.toList } rest
  | .sticky :: rest => entryOf { entry with sticky := true } rest
  | .fallback :: rest => entryOf { entry with fallback := true } rest
  | .immediate :: rest => entryOf { entry with immediate := true } rest

/-- The choices of a block, after earlier ones (latest first). -/
def entriesOf (done : List Entry) : List (List Trait) → Work (List Entry)
  | [] => return done.reverse
  | traits :: rest => do
    let entry ← entryOf ⟨[], [], false, [], false, false⟩ traits
    entriesOf (entry :: done) rest

/-- The branches of a conditional, after earlier ones (latest first), and what stands for
all other cases.  The body of a branch is drafted before its condition is read. -/
def armsOf (done : List Branch) (otherwise : Option Content) :
    List Arm → Work (List Branch × Option Content)
  | [] => return (done.reverse, otherwise)
  | .when source parts :: rest => do
    let body ← content [] parts
    match ← expression? source with
    | some condition => armsOf (⟨condition, body⟩ :: done) otherwise rest
    | none => armsOf done otherwise rest
  | .otherwise parts :: rest => do
    let body ← content [] parts
    armsOf done (some body) rest

/-- The groups of a sequence, after earlier ones (latest first). -/
def groupsOf (done : List Content) : List (List Part) → Work (List Content)
  | [] => return done.reverse
  | parts :: rest => do
    let group ← content [] parts
    groupsOf (group :: done) rest

end

/-! ## Knots -/

/-- Adds a gather to the last stitch. -/
def addToLast (gather : Gather) : List Stitch → List Stitch
  | [] => []
  | [stitch] => [{ stitch with gathers := stitch.gathers ++ [gather] }]
  | stitch :: rest => stitch :: addToLast gather rest

/-- Adds a gather to the last stitch of a knot, or to its body if it has no stitch yet. -/
def addGather (knot : Knot) (gather : Gather) : Knot :=
  if knot.stitches.isEmpty then { knot with gathers := knot.gathers ++ [gather] }
  else { knot with stitches := addToLast gather knot.stitches }

/-- Adds a part to a knot.  A gather has to follow a block of choices; one that does not is
left out and its identity is lost. -/
def extend (knot : Knot) : KnotPart → Work Knot
  | .part p => do
    let n ← node? p
    return { knot with objects := knot.objects ++ n.toList }
  | .parameter p => return { knot with parameters := knot.parameters ++ [p] }
  | .stitch name => do
    let id ← freshId
    let stitch : Stitch := { name := name, id := id, offset := knot.objects.length, gathers := [] }
    return { knot with stitches := knot.stitches ++ [stitch] }
  | .gather name => do
    let id ← freshId
    if knot.objects.getLast?.any Node.isChoice then
      return addGather knot
        { name := name, id := id, level := 1, choiceIndex := knot.objects.length - 1 }
    else
      report (.structural (.invalidGather knot.name name))
      return knot

/-- Adds parts to a knot, in order. -/
def extendAll (knot : Knot) : List KnotPart → Work Knot
  | [] => return knot
  | part :: rest => do extendAll (← extend knot part) rest

/-- The knot of a section, if it has one. -/
def knot? : Section → Work (Option Knot)
  | .knot name isFunction parts => do
    let id ← freshId
    let empty : Knot :=
      { name := name, id := id, parameters := [], objects := [], stitches := [], gathers := []
        isFunction := isFunction }
    return some (← extendAll empty parts)
  | .ready k => return some k
  | .skippedId => do
    let _ ← freshId
    return none

/-- The knots of sections, after earlier ones (latest first). -/
def knots (done : List Knot) : List Section → Work (List Knot)
  | [] => return done.reverse
  | s :: rest => do
    let knot ← knot? s
    knots (knot.toList ++ done) rest

/-- The script of a draft, with identities from a source. -/
def script (ids : IdSource) (sections : List Section) : Except StoryFault Script :=
  let (knots, desk) := (knots [] sections).run { ids := ids }
  match desk.fault with
  | some fault => .error fault
  | none =>
    match Script.ofKnots knots with
    | .ok s => .ok s
    | .error fault => .error (.structural fault)

end Skein.Draft
