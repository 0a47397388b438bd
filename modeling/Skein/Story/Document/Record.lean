import Skein.Json.Reader
import Skein.Story.Document.Names

set_option autoImplicit false

/-!
# Story: reading the parts of a document

A document is read from front to back, so of several faults the one that comes first in the
text is reported.  A record is read from its named fields, in any order and with further
fields passed over, or from an array with its values in the order of the fields.  Its fields
are read each on its own; a fault carries the place at which it was met, and where two
fields fail the one in front wins.
-/

namespace Skein.Document

/-- What comes of reading a part of a document. -/
abbrev Reads (α : Type) := Except DocumentFault α

variable {α β : Type}

/-- Fails because the document has the wrong shape. -/
def malformed : Reads α := .error .malformed

/-- The value, if there is one. -/
def orMalformed : Option α → Reads α
  | some a => .ok a
  | none => malformed

/-! ## Plain values -/

/-- Reads a string. -/
def string : Outline → Reads String
  | .string s => .ok s
  | _ => malformed

/-- Reads a truth value. -/
def bool : Outline → Reads Bool
  | .bool b => .ok b
  | _ => malformed

/-- Reads a natural number below a bound. -/
def natBelow (bound : Nat) : Outline → Reads Nat
  | .int n => if 0 ≤ n ∧ n < bound then .ok n.toNat else malformed
  | _ => malformed

/-- Reads a place. -/
def place (outline : Outline) : Reads Nat := natBelow UInt64.size outline

/-- Reads an identity. -/
def id (outline : Outline) : Reads NodeId := do
  return ⟨UInt32.ofNat (← natBelow UInt32.size outline)⟩

/-- Reads an integer of 64 bits. -/
def int64 : Outline → Reads Int64
  | .int n =>
    if Int64.minValue.toInt ≤ n ∧ n ≤ Int64.maxValue.toInt then .ok (Int64.ofInt n)
    else malformed
  | _ => malformed

/-- Reads an expression. -/
def expression (outline : Outline) : Reads Expression := do
  match Expression.parse Symbols.none (← string outline) with
  | .ok e => return e
  | .error fault => throw (.expression fault)

/-- Reads items, after those read already (latest first). -/
def items (read : Outline → Reads α) (done : List α) : List Outline → Reads (List α)
  | [] => .ok done.reverse
  | outline :: rest => do items read ((← read outline) :: done) rest

/-- Reads an array. -/
def many (read : Outline → Reads α) : Outline → Reads (List α)
  | .array list => items read [] list
  | _ => malformed

/-- Reads something that may be null. -/
def nullable (read : Outline → Reads α) : Outline → Reads (Option α)
  | .null => .ok none
  | outline => do return some (← read outline)

/-! ## Names -/

/-- Reads a name with or without a payload: a string, or an object with the name as its only
field.  That there is no other field is seen after the payload. -/
def variant (bare : String → Reads α) (loaded : String → Outline → Reads α) :
    Outline → Reads α
  | .string name => bare name
  | .object ((some name, payload) :: rest) => do
    let a ← loaded name payload
    if rest.isEmpty then return a else malformed
  | _ => malformed

/-- Reads a name that has no payload. -/
def plain (named? : String → Option α) : Outline → Reads α :=
  variant (fun name => orMalformed (named? name)) fun name payload =>
    match payload with
    | .null => orMalformed (named? name)
    | _ => malformed

/-! ## Records -/

/-- What comes of reading a field of a record: a value, or a fault and the place in the
record at which it was met. -/
inductive Cell (α : Type) where
  | value (a : α)
  | fault (place : Nat) (cause : DocumentFault)

namespace Cell

/-- What two cells give together; of two faults the one in front. -/
def both (f : Cell (α → β)) (a : Cell α) : Cell β :=
  match f, a with
  | value f, value a => value (f a)
  | value _, fault place cause => fault place cause
  | fault place cause, value _ => fault place cause
  | fault place cause, fault other otherCause =>
    if other < place then fault other otherCause else fault place cause

instance : Applicative Cell where
  pure := value
  seq f a := both f (a ())

/-- The cell of something read at a place. -/
def ofReads (place : Nat) : Reads α → Cell α
  | .ok a => value a
  | .error cause => fault place cause

/-- What was read, wherever a fault was met. -/
def reads : Cell α → Reads α
  | value a => .ok a
  | fault _ cause => .error cause

end Cell

/-- The values of a record in the order of the document. -/
inductive Values where
  | named (fields : List (Option String × Outline))
  | placed (items : List Outline)

/-- A record: the names of its fields in their order, and its values. -/
structure Record where
  names : List String
  values : Values

namespace Record

/-- The number of values, which is the place of what is missing. -/
def size (r : Record) : Nat :=
  match r.values with
  | .named fields => fields.length
  | .placed items => items.length

/-- The first value with a name, and its place. -/
def namedValue? (name : String) (place : Nat) :
    List (Option String × Outline) → Option (Nat × Outline)
  | [] => none
  | (key, value) :: rest =>
    if key = some name then some (place, value) else namedValue? name (place + 1) rest

/-- The value of a field and its place. -/
def value? (r : Record) (name : String) : Option (Nat × Outline) :=
  match r.values with
  | .named fields => namedValue? name 0 fields
  | .placed items =>
    let place := r.names.idxOf name
    items[place]?.map (place, ·)

/-- The cell of a field, given what stands for a value that is missing. -/
def cell (r : Record) (name : String) (read : Outline → Reads α) (missing : Reads α) : Cell α :=
  match r.value? name with
  | some (place, outline) => .ofReads place (read outline)
  | none => .ofReads r.size missing

/-- The cell of a field that has to be there. -/
def required (r : Record) (name : String) (read : Outline → Reads α) : Cell α :=
  r.cell name read malformed

/-- The cell of a field that has a value even if it is not there. -/
def defaulting (r : Record) (name : String) (read : Outline → Reads α) (value : α) : Cell α :=
  r.cell name read (.ok value)

/-- The cell of a field that may be null, and may be left out if the fields have names. -/
def optional (r : Record) (name : String) (read : Outline → Reads α) : Cell (Option α) :=
  r.cell name (nullable read) <|
    match r.values with
    | .named _ => .ok none
    | .placed _ => malformed

/-- Looks over named values: every name has to be readable, no field may be there twice, and
what is not a field has to be whole. -/
def checkNames (names seen : List String) (place : Nat) :
    List (Option String × Outline) → Cell Unit
  | [] => .value ()
  | (none, _) :: _ => .fault place .malformed
  | (some name, value) :: rest =>
    if name ∈ names then
      if name ∈ seen then .fault place .malformed
      else checkNames names (name :: seen) (place + 1) rest
    else if value.isWhole then checkNames names seen (place + 1) rest
    else .fault place .malformed

/-- Looks over what is not read as a field. -/
def check (r : Record) : Cell Unit :=
  match r.values with
  | .named fields => checkNames r.names [] 0 fields
  | .placed items =>
    if items.length ≤ r.names.length then .value () else .fault r.names.length .malformed

/-- Reads a record, given how to read its fields. -/
def reads (r : Record) (fields : Record → Cell α) : Reads α := (fields r <* r.check).reads

end Record

/-- Reads a record with fields of the given names, given how to read them. -/
def record (names : List String) (fields : Record → Cell α) : Outline → Reads α
  | .object list => Record.reads ⟨names, .named list⟩ fields
  | .array list => Record.reads ⟨names, .placed list⟩ fields
  | _ => malformed

end Skein.Document
