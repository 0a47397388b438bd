import Skein.Story.Equality
import Skein.Story.Fault

set_option autoImplicit false

/-!
# Story: scripts

A script is a table of knots.  The objects of a knot are its body followed by the bodies
of its stitches; a stitch is the place where its body starts.  A gather stands behind a
block of choices and is where their branches meet again.  Paths of up to three parts name
knots, stitches and gathers.
-/

namespace Skein

/-- The place of a knot in its script. -/
structure KnotId where
  index : Nat
  deriving DecidableEq, Repr, Inhabited

/-- How the place of a knot is shown. -/
def KnotId.text (id : KnotId) : String := "knot#" ++ toString id.index

/-- A parameter of a knot; a reference parameter stands for a variable of the caller. -/
structure Parameter where
  name : String
  byRef : Bool
  deriving DecidableEq, Repr

/-- A point where branches of choices meet again. -/
structure Gather where
  /-- The label; empty if there is none. -/
  name : String
  id : NodeId
  /-- The depth of the choices that it closes. -/
  level : UInt16
  /-- The place of the block of choices that it follows. -/
  choiceIndex : Nat
  deriving DecidableEq, Repr

/-- The place of the first object of a gather. -/
def Gather.start (g : Gather) : Nat := g.choiceIndex + 1

/-- A named part of a knot. -/
structure Stitch where
  name : String
  id : NodeId
  /-- The place among the knot's objects where the stitch starts. -/
  offset : Nat
  gathers : List Gather
  deriving DecidableEq, Repr

/-- A section of a story. -/
structure Knot where
  name : String
  id : NodeId
  parameters : List Parameter
  /-- The body of the knot, then the body of each stitch. -/
  objects : Content
  /-- The stitches in order of their places. -/
  stitches : List Stitch
  /-- The gathers in the body of the knot. -/
  gathers : List Gather
  /-- Whether the knot is called from expressions. -/
  isFunction : Bool
  deriving DecidableEq

namespace Knot

/-- The end of the body, before the first stitch. -/
def bodyEnd (k : Knot) : Nat :=
  match k.stitches with
  | [] => k.objects.length
  | stitch :: _ => stitch.offset

/-- The end of the part that a place lies in: the next stitch that starts after it, or the
end of the objects. -/
def segmentEnd (k : Knot) (index : Nat) : Nat :=
  match k.stitches.find? fun stitch => index < stitch.offset with
  | some stitch => stitch.offset
  | none => k.objects.length

/-- The place of a stitch with a name among the stitches. -/
def stitchIndex? (k : Knot) (name : String) : Option Nat :=
  k.stitches.findIdx? fun stitch => stitch.name = name

/-- Every gather: those of the body, then those of each stitch. -/
def allGathers (k : Knot) : List Gather :=
  k.gathers ++ k.stitches.flatMap (·.gathers)

/-- The gather whose content starts at a place. -/
def gatherAt? (k : Knot) (index : Nat) : Option Gather :=
  k.allGathers.find? fun gather => gather.start = index

/-! ## Checks -/

/-- Checks that stitches start within the objects, none before the one in front of it. -/
def checkStitches (k : Knot) (least : Nat) : List Stitch → Except StructureFault Unit
  | [] => .ok ()
  | stitch :: rest =>
    if k.objects.length < stitch.offset || stitch.offset < least then
      .error (.invalidStitchOffset k.name stitch.name)
    else k.checkStitches stitch.offset rest

/-- Checks that gathers follow blocks of choices. -/
def checkGathers (k : Knot) : List Gather → Except StructureFault Unit
  | [] => .ok ()
  | gather :: rest =>
    if k.objects[gather.choiceIndex]?.any Node.isChoice then k.checkGathers rest
    else .error (.invalidGather k.name gather.name)

/-- Checks the stitches and then the gathers of a knot. -/
def check (k : Knot) : Except StructureFault Unit := do
  k.checkStitches 0 k.stitches
  k.checkGathers k.allGathers

/-- Checks knots in order: that the name is new, and then the knot itself. -/
def checkAll (seen : List String) : List Knot → Except StructureFault Unit
  | [] => .ok ()
  | knot :: rest =>
    if knot.name ∈ seen then .error (.duplicateKnot knot.name)
    else do
      knot.check
      checkAll (knot.name :: seen) rest

end Knot

/-- The gather with a name; unlabelled gathers cannot be named. -/
def namedGather? (gathers : List Gather) (name : String) : Option Gather :=
  if name.isEmpty then none else gathers.find? fun gather => gather.name = name

/-- What a path can name. -/
inductive Address where
  | knot (knot : KnotId)
  | stitch (knot : KnotId) (index : Nat)
  | gather (knot : KnotId) (id : NodeId)
  deriving DecidableEq, Repr

/-- The knot that an address lies in. -/
def Address.knotId : Address → KnotId
  | .knot k => k
  | .stitch k _ => k
  | .gather k _ => k

/-- Where control lands: a range of the objects of a knot, the sections that are entered,
and for a gather its start, so that arriving there is not counted again. -/
structure Location where
  knot : KnotId
  start : Nat
  stop : Nat
  visits : List NodeId
  gatherStart : Option Nat
  deriving DecidableEq, Repr

/-- A table of knots that do not contradict each other. -/
structure Script where
  knots : List Knot
  /-- The knots pass the checks: names are unique, stitches are in order and within their
  knots, and every gather follows a block of choices. -/
  sound : Knot.checkAll [] knots = .ok ()
  deriving DecidableEq

namespace Script

/-- The script of knots, if they pass the checks. -/
def ofKnots (knots : List Knot) : Except StructureFault Script :=
  match h : Knot.checkAll [] knots with
  | .ok () => .ok { knots := knots, sound := h }
  | .error fault => .error fault

/-- The knot at a place. -/
def knot? (s : Script) (id : KnotId) : Option Knot := s.knots[id.index]?

/-- The place of the knot with a name. -/
def knotId? (s : Script) (name : String) : Option KnotId :=
  (s.knots.findIdx? fun knot => knot.name = name).map .mk

/-- The place of the first knot that is not a function. -/
def firstKnot? (s : Script) : Option KnotId :=
  (s.knots.findIdx? fun knot => !knot.isFunction).map .mk

/-- Whether a name is that of a function. -/
def isFunction (s : Script) (name : String) : Bool :=
  ((s.knotId? name).bind s.knot?).any (·.isFunction)

/-- Every node of every knot. -/
def nodes (s : Script) : List Node := s.knots.flatMap fun knot => Content.nodes knot.objects

/-! ## Paths -/

/-- Puts one more character in front of a path whose parts are known. -/
def stepSegment (c : Char) : List Char × List (List Char) → List Char × List (List Char)
  | (part, rest) => if c = '.' then ([], part :: rest) else (c :: part, rest)

/-- The parts of a path, between its dots. -/
def segments (path : String) : List String :=
  let (part, rest) := path.toList.foldr stepSegment ([], [])
  (part :: rest).map String.ofList

/-- The stitch, or the gather of the body, with a name in a knot. -/
def local? (s : Script) (id : KnotId) (name : String) : Option Address := do
  let knot ← s.knot? id
  match knot.stitchIndex? name with
  | some index => return .stitch id index
  | none =>
    let gather ← namedGather? knot.gathers name
    return .gather id gather.id

/-- The gather with a name in a stitch with a name. -/
def stitchGather? (s : Script) (id : KnotId) (stitch gather : String) : Option Address := do
  let knot ← s.knot? id
  let found ← knot.stitches.find? fun other => other.name = stitch
  let gather ← namedGather? found.gathers gather
  return .gather id gather.id

/-- What a path with at most three parts names.  A single name is looked for in the current
knot first. -/
def address? (s : Script) (current : Option KnotId) : List String → Option Address
  | [name] => (current.bind fun id => s.local? id name).or ((s.knotId? name).map .knot)
  | [outer, inner] =>
    ((s.knotId? outer).bind fun id => s.local? id inner).or
      (current.bind fun id => s.stitchGather? id outer inner)
  | [knot, stitch, gather] => (s.knotId? knot).bind fun id => s.stitchGather? id stitch gather
  | _ => none

/-- Finds what a path names. -/
def resolve (s : Script) (path : String) (current : Option KnotId) : Except StoryFault Address :=
  let parts := segments path
  if 3 < parts.length then .error (.structural (.pathTooDeep path))
  else
    match s.address? current parts with
    | some address => .ok address
    | none => .error (.navigation (.unknownTarget path))

/-- The identity that visits of an address are counted by. -/
def idOf? (s : Script) (address : Address) : Option NodeId := do
  let knot ← s.knot? address.knotId
  match address with
  | .knot _ => return knot.id
  | .stitch _ index => return (← knot.stitches[index]?).id
  | .gather _ id => return id

/-! ## Locations -/

/-- Where a divert to a knot lands; a knot with an empty body enters its first stitch. -/
def locateKnot (id : KnotId) (knot : Knot) : Location :=
  match knot.stitches with
  | first :: _ =>
    if knot.bodyEnd = 0 then
      { knot := id, start := first.offset, stop := knot.segmentEnd first.offset
        visits := [knot.id, first.id], gatherStart := none }
    else
      { knot := id, start := 0, stop := knot.bodyEnd, visits := [knot.id], gatherStart := none }
  | [] =>
    { knot := id, start := 0, stop := knot.bodyEnd, visits := [knot.id], gatherStart := none }

/-- Where a divert to an address lands. -/
def locate (s : Script) (address : Address) : Except NavigationFault Location :=
  let id := address.knotId
  match s.knot? id with
  | none => .error (.unknownTarget id.text)
  | some knot =>
    match address with
    | .knot _ => .ok (locateKnot id knot)
    | .stitch _ index =>
      match knot.stitches[index]? with
      | none => .error (.unknownTarget knot.name)
      | some stitch =>
        .ok { knot := id, start := stitch.offset, stop := knot.segmentEnd stitch.offset
              visits := [stitch.id], gatherStart := none }
    | .gather _ gatherId =>
      match knot.allGathers.find? fun gather => gather.id = gatherId with
      | none => .error (.unknownTarget gatherId.text)
      | some gather =>
        .ok { knot := id, start := gather.start, stop := knot.segmentEnd gather.start
              visits := [gather.id], gatherStart := some gather.start }

end Script

end Skein
