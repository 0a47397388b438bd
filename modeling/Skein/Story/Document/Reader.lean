import Skein.Story.Document.Record

set_option autoImplicit false

/-!
# Story: reading the document form

The records of the document form, from expressions up to the whole story, and the story
that a text holds.
-/

namespace Skein.Document

/-! ## Content -/

/-- Reads a divert. -/
def divert : Outline → Reads Divert :=
  record ["kind", "target", "args"] fun r =>
    Divert.mk
      <$> r.required "kind" (plain divertNamed?)
      <*> r.optional "target" string
      <*> r.defaulting "args" (many expression) []

/-- Reads the declaration of a variable. -/
def global : Outline → Reads GlobalDeclaration :=
  record ["name", "init", "constant"] fun r =>
    GlobalDeclaration.mk
      <$> r.required "name" string
      <*> r.required "init" expression
      <*> r.defaulting "constant" bool false

/-- Reads an item of a list declaration. -/
def listEntry : Outline → Reads ListEntry :=
  record ["label", "value", "selected"] fun r =>
    ListEntry.mk
      <$> r.required "label" string
      <*> r.required "value" int64
      <*> r.defaulting "selected" bool false

/-- Reads a list declaration. -/
def list : Outline → Reads ListDeclaration :=
  record ["name", "entries"] fun r =>
    ListDeclaration.mk <$> r.required "name" string <*> r.required "entries" (many listEntry)

/-- Reads a choice, given how to read content. -/
def entry (content : Outline → Reads Content) : Outline → Reads Entry :=
  record ["text", "result", "sticky", "conditions", "fallback", "immediately_continue"] fun r =>
    Entry.mk
      <$> r.required "text" content
      <*> r.required "result" content
      <*> r.defaulting "sticky" bool false
      <*> r.defaulting "conditions" (many expression) []
      <*> r.defaulting "fallback" bool false
      <*> r.defaulting "immediately_continue" bool false

/-- Reads a branch, given how to read content. -/
def branch (content : Outline → Reads Content) : Outline → Reads Branch :=
  record ["condition", "content"] fun r =>
    Branch.mk <$> r.required "condition" expression <*> r.required "content" content

/-- Reads a block of choices, given how to read content. -/
def choice (content : Outline → Reads Content) : Outline → Reads Node :=
  record ["id", "entries"] fun r =>
    Node.choice <$> r.required "id" id <*> r.required "entries" (many (entry content))

/-- Reads a conditional, given how to read content. -/
def conditional (content : Outline → Reads Content) : Outline → Reads Node :=
  record ["switch", "branches", "otherwise"] fun r =>
    Node.conditional
      <$> r.defaulting "switch" (nullable expression) none
      <*> r.required "branches" (many (branch content))
      <*> r.defaulting "otherwise" (nullable content) none

/-- Reads a sequence, given how to read content. -/
def sequence (content : Outline → Reads Content) : Outline → Reads Node :=
  record ["id", "kind", "groups"] fun r =>
    Node.sequence
      <$> r.required "id" id
      <*> r.required "kind" (plain sequenceNamed?)
      <*> r.required "groups" (many content)

/-- Reads the payload of a node, given how to read content. -/
def payload (content : Outline → Reads Content) (name : String) (value : Outline) : Reads Node :=
  match name with
  | "text" => do return .text (← string value)
  | "divert" => do return .divert (← divert value)
  | "choice" => choice content value
  | "choice_text_mix" => do return .marker (← plain markerNamed? value)
  | "tag" => do return .tag (← string value)
  | "interpolation" => do return .interpolation (← expression value)
  | "conditional" => conditional content value
  | "sequence" => sequence content value
  | "global_variable" => do return .global (← global value)
  | "logic" => do return .logic (← expression value)
  | "list_declaration" => do return .list (← list value)
  | _ => malformed

/-- The node with a name and no payload. -/
def bareNode? : String → Option Node
  | "line_break" => some .lineBreak
  | "glue" => some .glue
  | _ => none

/-- Reads a node, given how to read content. -/
def nodeOf (content : Outline → Reads Content) : Outline → Reads Node :=
  variant (fun name => orMalformed (bareNode? name)) fun name value =>
    match bareNode? name, value with
    | some node, .null => .ok node
    | some _, _ => malformed
    | none, value => payload content name value

/-- Reads a node in a document of at most `bound` levels. -/
def node : (bound : Nat) → Outline → Reads Node
  | 0, _ => malformed
  | bound + 1, outline => nodeOf (many (node bound)) outline

/-- Reads a node. -/
def readNode (outline : Outline) : Reads Node := node outline.height outline

/-- Reads content. -/
def content (outline : Outline) : Reads Content := many (node outline.height) outline

/-! ## Knots -/

/-- Reads a parameter. -/
def parameter : Outline → Reads Parameter :=
  record ["name", "by_ref"] fun r =>
    Parameter.mk <$> r.required "name" string <*> r.defaulting "by_ref" bool false

/-- Reads the level of a gather. -/
def level (outline : Outline) : Reads UInt16 := do
  return UInt16.ofNat (← natBelow UInt16.size outline)

/-- Reads a gather. -/
def gather : Outline → Reads Gather :=
  record ["name", "uuid", "nesting_level", "choice_index"] fun r =>
    Gather.mk
      <$> r.required "name" string
      <*> r.required "uuid" id
      <*> r.required "nesting_level" level
      <*> r.required "choice_index" place

/-- Reads a stitch. -/
def stitch : Outline → Reads Stitch :=
  record ["name", "uuid", "offset", "gather_points"] fun r =>
    Stitch.mk
      <$> r.required "name" string
      <*> r.required "uuid" id
      <*> r.required "offset" place
      <*> r.defaulting "gather_points" (many gather) []

/-- Reads a knot. -/
def knot : Outline → Reads Knot :=
  record ["name", "uuid", "parameters", "objects", "stitches", "gather_points", "is_function"]
    fun r =>
      Knot.mk
        <$> r.required "name" string
        <*> r.required "uuid" id
        <*> r.defaulting "parameters" (many parameter) []
        <*> r.required "objects" content
        <*> r.defaulting "stitches" (many stitch) []
        <*> r.defaulting "gather_points" (many gather) []
        <*> r.defaulting "is_function" bool false

/-- Reads a story. -/
def script (outline : Outline) : Reads Script := do
  match Script.ofKnots (← many knot outline) with
  | .ok s => return s
  | .error fault => throw (.structural fault)

/-- How deep the containers of a story's document may be nested. -/
def mostLevels : Nat := 127

/-- Reads the text of a story's document.  What may follow the document is looked at when the
story has been read. -/
def read (text : String) : Reads Script := do
  let (outline, ends) := Json.outline mostLevels text
  let s ← script outline
  if ends then return s else malformed

end Skein.Document
