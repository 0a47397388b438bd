import Skein.Story.Binary.Bytes

set_option autoImplicit false

/-!
# Story: reading the binary form

A reader takes what it needs from the front of the bytes and leaves the rest.  Every node
takes at least one byte, so the number of bytes bounds how deeply nodes are nested.
-/

namespace Skein.Binary

/-- Takes something from the front of the bytes. -/
abbrev Get := StateT Bytes (Except FormatFault)

namespace Get

variable {α : Type}

/-- Fails. -/
def fail (fault : FormatFault) : Get α := fun _ => .error fault

/-! ## Primitives -/

/-- Takes a byte. -/
def byte : Get UInt8
  | [] => .error .unexpectedEnd
  | b :: rest => .ok (b, rest)

/-- Takes a number of bytes. -/
def take (size : Nat) : Get Bytes := fun bytes =>
  let taken := bytes.take size
  if taken.length < size then .error .unexpectedEnd
  else .ok (taken, bytes.drop size)

/-- Takes a number of fixed width. -/
def number (width : Nat) : Get Nat := do return ofLittleEndian (← take width)

/-- Takes a tag byte that tells kinds apart. -/
def tagged (what : Tagged) (of? : UInt8 → Option α) : Get α := do
  let tag ← byte
  match of? tag with
  | some a => return a
  | none => fail (.invalidTag what tag)

/-- Takes a truth value. -/
def bool : Get Bool := tagged .bool boolOf?

/-- Takes a string. -/
def string : Get String := do
  let size ← number 2
  let bytes ← take size
  match String.fromUTF8? ⟨bytes.toArray⟩ with
  | some s => return s
  | none => fail .invalidUtf8

/-- Takes the groups of a number up to the marked one, at most `bound` of them. -/
def groups : (bound : Nat) → Get Nat
  | 0 => fail .idOverflow
  | bound + 1 => do
    let group := (← byte).toNat
    if 128 ≤ group then return group - 128
    else return group + 128 * (← groups bound)

/-- Takes an identity. -/
def id : Get NodeId := do
  let n ← groups maxGroups
  if n < UInt32.size then return ⟨UInt32.ofNat n⟩ else fail .idOverflow

/-- Takes as many things as the count says, after those taken already (latest first). -/
def times (get : Get α) (taken : List α) : (count : Nat) → Get (List α)
  | 0 => return taken.reverse
  | count + 1 => do
    let a ← get
    times get (a :: taken) count

/-- Takes a list behind a count of the given width. -/
def counted (width : Nat) (get : Get α) : Get (List α) := do
  times get [] (← number width)

/-- Takes something that may be missing. -/
def optional (get : Get α) : Get (Option α) := do
  if ← bool then return some (← get) else return none

/-- Takes an expression. -/
def expression : Get Expression := do
  let source ← string
  match Expression.parse Symbols.none source with
  | .ok e => return e
  | .error fault => fail (.expression source fault)

/-! ## Content -/

/-- Takes a divert. -/
def divert : Get Divert := do
  let kind ← tagged .divertKind divertOf?
  let target ← optional string
  let args ← counted 2 expression
  return { kind := kind, target := target, args := args }

/-- Takes the declaration of a variable. -/
def global : Get GlobalDeclaration := do
  let name ← string
  let init ← expression
  let constant ← bool
  return { name := name, init := init, constant := constant }

/-- Takes an item of a list declaration. -/
def listEntry : Get ListEntry := do
  let label ← string
  let value ← number 8
  let selected ← bool
  return { label := label, value := (UInt64.ofNat value).toInt64, selected := selected }

/-- Takes a list declaration. -/
def list : Get ListDeclaration := do
  let name ← string
  let entries ← counted 2 listEntry
  return { name := name, entries := entries }

/-- Takes a choice, given how to take content. -/
def entry (content : Get Content) : Get Entry := do
  let flags ← byte
  let text ← content
  let result ← content
  let conditions ← counted 2 expression
  return {
    text := text, result := result, sticky := isSticky flags, conditions := conditions
    fallback := isFallback flags, immediate := isImmediate flags }

/-- Takes a branch, given how to take content. -/
def branch (content : Get Content) : Get Branch := do
  let condition ← expression
  let body ← content
  return { condition := condition, content := body }

/-- Takes what follows the tag byte of a node, given how to take content. -/
def nodeOf (content : Get Content) (tag : UInt8) : Get Node := do
  match tag with
  | 0 => return .text (← string)
  | 1 => return .lineBreak
  | 2 => return .glue
  | 3 => return .divert (← divert)
  | 4 => do
    let i ← id
    return .choice i (← counted 2 (entry content))
  | 5 => return .marker (← tagged .marker markerOf?)
  | 6 => return .tag (← string)
  | 7 => return .interpolation (← expression)
  | 8 => do
    let subject ← optional expression
    let branches ← counted 2 (branch content)
    return .conditional subject branches (← optional content)
  | 9 => do
    let i ← id
    let kind ← tagged .sequenceKind sequenceOf?
    return .sequence i kind (← counted 2 content)
  | 10 => return .global (← global)
  | 11 => return .logic (← expression)
  | 12 => return .list (← list)
  | tag => fail (.invalidTag .node tag)

/-- Takes a node nested at most `bound` deep. -/
def node : (bound : Nat) → Get Node
  | 0 => fail .unexpectedEnd
  | bound + 1 => do nodeOf (counted 4 (node bound)) (← byte)

/-- Takes content nested at most `bound` deep. -/
def content (bound : Nat) : Get Content := counted 4 (node bound)

/-! ## Knots -/

/-- Takes a parameter. -/
def parameter : Get Parameter := do
  let name ← string
  let byRef ← bool
  return { name := name, byRef := byRef }

/-- Takes a gather. -/
def gather : Get Gather := do
  let name ← string
  let i ← id
  let level ← number 2
  let choiceIndex ← number 4
  return { name := name, id := i, level := UInt16.ofNat level, choiceIndex := choiceIndex }

/-- Takes a stitch. -/
def stitch : Get Stitch := do
  let name ← string
  let i ← id
  let offset ← number 4
  let gathers ← counted 2 gather
  return { name := name, id := i, offset := offset, gathers := gathers }

/-- Takes a knot with content nested at most `bound` deep. -/
def knot (bound : Nat) : Get Knot := do
  let name ← string
  let i ← id
  let parameters ← counted 2 parameter
  let stitches ← counted 2 stitch
  let gathers ← counted 2 gather
  let isFunction ← bool
  let objects ← content bound
  return {
    name := name, id := i, parameters := parameters, objects := objects
    stitches := stitches, gathers := gathers, isFunction := isFunction }

/-- Takes the magic number and the version. -/
def header : Get Unit := do
  if (← take magic.length) ≠ magic then fail .badMagic
  let found ← byte
  if found ≠ version then fail (.unsupportedVersion found)

/-- Takes the knots of a story. -/
def knots (bound : Nat) : Get (List Knot) := do
  header
  counted 4 (knot bound)

end Get

/-- The story with a binary form.  What follows the last knot is ignored. -/
def decode (bytes : Bytes) : Except StoryFault Script :=
  match Get.knots (bytes.length + 1) bytes with
  | .error fault => .error (.format fault)
  | .ok (knots, _) =>
    match Script.ofKnots knots with
    | .error fault => .error (.structural fault)
    | .ok script => .ok script

end Skein.Binary
