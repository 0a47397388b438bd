import Skein.Story.Binary.Bytes

set_option autoImplicit false

/-!
# Story: writing the binary form

Each function here adds the bytes of one thing to those written so far.  Writing fails
where a string or a collection is too long for its length field.
-/

namespace Skein.Binary

/-- The bytes written so far. -/
abbrev Written := Array UInt8

/-- What comes of writing more. -/
abbrev Put := Except FormatFault Written

namespace Put

/-! ## Primitives -/

/-- Adds one byte. -/
def byte (out : Written) (b : UInt8) : Written := out.push b

/-- Adds a truth value. -/
def bool (out : Written) (b : Bool) : Written := byte out (boolCode b)

/-- Adds a number of fixed width. -/
def number (out : Written) (width n : Nat) : Written := out ++ (littleEndian width n).toArray

/-- Adds an identity. -/
def id (out : Written) (id : NodeId) : Written :=
  out ++ (groups maxGroups id.number.toNat).toArray

/-- Adds a count of two bytes. -/
def count16 (out : Written) (count : Nat) : Put :=
  if count < UInt16.size then .ok (number out 2 count) else .error (.countTooLarge count)

/-- Adds a count or a place of four bytes. -/
def count32 (out : Written) (count : Nat) : Put :=
  if count < UInt32.size then .ok (number out 4 count) else .error (.countTooLarge count)

/-- Adds a string. -/
def string (out : Written) (s : String) : Put :=
  if s.utf8ByteSize < UInt16.size then .ok (number out 2 s.utf8ByteSize ++ s.toUTF8.data)
  else .error (.stringTooLong s.utf8ByteSize)

/-- Adds the items of a list. -/
def each {α : Type} (put : Written → α → Put) (out : Written) : List α → Put
  | [] => .ok out
  | a :: rest => do each put (← put out a) rest

/-- Adds a list behind a count of two bytes. -/
def counted {α : Type} (put : Written → α → Put) (out : Written) (list : List α) : Put := do
  each put (← count16 out list.length) list

/-- Adds something that may be missing. -/
def optional {α : Type} (put : Written → α → Put) (out : Written) : Option α → Put
  | none => .ok (bool out false)
  | some a => put (bool out true) a

/-- Adds an expression. -/
def expression (out : Written) (e : Expression) : Put := string out e.source

/-! ## Content -/

/-- Adds a divert. -/
def divert (out : Written) (d : Divert) : Put := do
  let out ← optional string (byte out (divertCode d.kind)) d.target
  counted expression out d.args

/-- Adds the declaration of a variable. -/
def global (out : Written) (g : GlobalDeclaration) : Put := do
  let out ← string out g.name
  let out ← expression out g.init
  return bool out g.constant

/-- Adds an item of a list declaration. -/
def listEntry (out : Written) (entry : ListEntry) : Put := do
  let out ← string out entry.label
  return bool (number out 8 entry.value.toUInt64.toNat) entry.selected

/-- Adds a list declaration. -/
def list (out : Written) (l : ListDeclaration) : Put := do
  counted listEntry (← string out l.name) l.entries

mutual

/-- Adds a node. -/
def node (out : Written) : Node → Put
  | .text s => string (byte out 0) s
  | .lineBreak => .ok (byte out 1)
  | .glue => .ok (byte out 2)
  | .divert d => divert (byte out 3) d
  | .choice i entries => do entriesOf (← count16 (id (byte out 4) i) entries.length) entries
  | .marker m => .ok (byte (byte out 5) (markerCode m))
  | .tag s => string (byte out 6) s
  | .interpolation e => expression (byte out 7) e
  | .conditional subject branches otherwise => do
    let out ← optional expression (byte out 8) subject
    let out ← branchesOf (← count16 out branches.length) branches
    optionalContent out otherwise
  | .sequence i kind groups => do
    let out := byte (id (byte out 9) i) (sequenceCode kind)
    groupsOf (← count16 out groups.length) groups
  | .global g => global (byte out 10) g
  | .logic e => expression (byte out 11) e
  | .list l => list (byte out 12) l

/-- Adds the nodes of a run. -/
def nodes (out : Written) : List Node → Put
  | [] => .ok out
  | n :: rest => do nodes (← node out n) rest

/-- Adds the choices of a block. -/
def entriesOf (out : Written) : List Entry → Put
  | [] => .ok out
  | ⟨text, result, sticky, conditions, fallback, immediate⟩ :: rest => do
    let out := byte out (entryCode sticky fallback immediate)
    let out ← nodes (← count32 out text.length) text
    let out ← nodes (← count32 out result.length) result
    let out ← counted expression out conditions
    entriesOf out rest

/-- Adds the branches of a conditional. -/
def branchesOf (out : Written) : List Branch → Put
  | [] => .ok out
  | ⟨condition, content⟩ :: rest => do
    let out ← expression out condition
    let out ← nodes (← count32 out content.length) content
    branchesOf out rest

/-- Adds a run that may be missing. -/
def optionalContent (out : Written) : Option (List Node) → Put
  | none => .ok (bool out false)
  | some content => do nodes (← count32 (bool out true) content.length) content

/-- Adds the groups of a sequence. -/
def groupsOf (out : Written) : List (List Node) → Put
  | [] => .ok out
  | group :: rest => do
    let out ← nodes (← count32 out group.length) group
    groupsOf out rest

end

/-- Adds a run of nodes behind its count. -/
def content (out : Written) (content : Content) : Put := do
  nodes (← count32 out content.length) content

/-! ## Knots -/

/-- Adds a parameter. -/
def parameter (out : Written) (p : Parameter) : Put := do
  return bool (← string out p.name) p.byRef

/-- Adds a gather. -/
def gather (out : Written) (g : Gather) : Put := do
  let out ← string out g.name
  count32 (number (id out g.id) 2 g.level.toNat) g.choiceIndex

/-- Adds a stitch. -/
def stitch (out : Written) (s : Stitch) : Put := do
  let out ← string out s.name
  let out ← count32 (id out s.id) s.offset
  counted gather out s.gathers

/-- Adds a knot. -/
def knot (out : Written) (k : Knot) : Put := do
  let out ← string out k.name
  let out ← counted parameter (id out k.id) k.parameters
  let out ← counted stitch out k.stitches
  let out ← counted gather out k.gathers
  content (bool out k.isFunction) k.objects

/-- Adds a story. -/
def script (out : Written) (s : Script) : Put := do
  let out := byte (out ++ magic.toArray) version
  each knot (← count32 out s.knots.length) s.knots

end Put

/-- The binary form of a story. -/
def encode (s : Script) : Except FormatFault Bytes := do
  return (← Put.script #[] s).toList

end Skein.Binary
