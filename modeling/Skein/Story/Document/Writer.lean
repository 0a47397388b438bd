import Skein.Json.Printer
import Skein.Story.Document.Names

set_option autoImplicit false

/-!
# Story: writing the document form

The fields of a record have a fixed order.  Some are left out when they are empty.
-/

namespace Skein.Document

/-! ## Parts -/

/-- A node with a payload. -/
def tagged (name : String) (payload : Json) : Json := .object [(name, payload)]

/-- A number. -/
def ofNat (n : Nat) : Json := .int n

/-- An identity. -/
def ofId (id : NodeId) : Json := ofNat id.number.toNat

/-- An expression, as its source. -/
def ofExpression (e : Expression) : Json := .string e.source

/-- A field that is left out when it has no items. -/
def unlessEmpty (name : String) (items : List Json) : List (String × Json) :=
  if items.isEmpty then [] else [(name, .array items)]

/-- A field that is left out when it is missing. -/
def unlessMissing (name : String) : Option Json → List (String × Json)
  | none => []
  | some json => [(name, json)]

/-- A divert. -/
def ofDivert (d : Divert) : Json :=
  .object
    ([("kind", .string (divertName d.kind)), ("target", (d.target.map Json.string).getD .null)] ++
      unlessEmpty "args" (d.args.map ofExpression))

/-- The declaration of a variable. -/
def ofGlobal (g : GlobalDeclaration) : Json :=
  .object [("name", .string g.name), ("init", ofExpression g.init), ("constant", .bool g.constant)]

/-- An item of a list declaration. -/
def ofListEntry (entry : ListEntry) : Json :=
  .object
    [("label", .string entry.label), ("value", .int entry.value.toInt),
     ("selected", .bool entry.selected)]

/-- A list declaration. -/
def ofList (l : ListDeclaration) : Json :=
  .object [("name", .string l.name), ("entries", .array (l.entries.map ofListEntry))]

/-! ## Content -/

mutual

/-- A node. -/
def ofNode : Node → Json
  | .text s => tagged "text" (.string s)
  | .lineBreak => .string "line_break"
  | .glue => .string "glue"
  | .divert d => tagged "divert" (ofDivert d)
  | .choice id entries =>
    tagged "choice" (.object [("id", ofId id), ("entries", .array (ofEntries [] entries))])
  | .marker m => tagged "choice_text_mix" (.string (markerName m))
  | .tag s => tagged "tag" (.string s)
  | .interpolation e => tagged "interpolation" (ofExpression e)
  | .conditional subject branches otherwise =>
    tagged "conditional"
      (.object
        (unlessMissing "switch" (subject.map ofExpression) ++
          [("branches", .array (ofBranches [] branches))] ++
          unlessMissing "otherwise" (ofOptional otherwise)))
  | .sequence id kind groups =>
    tagged "sequence"
      (.object
        [("id", ofId id), ("kind", .string (sequenceName kind)),
         ("groups", .array (ofGroups [] groups))])
  | .global g => tagged "global_variable" (ofGlobal g)
  | .logic e => tagged "logic" (ofExpression e)
  | .list l => tagged "list_declaration" (ofList l)

/-- The nodes of a run, after those written already (latest first). -/
def ofNodes (written : List Json) : List Node → List Json
  | [] => written.reverse
  | node :: rest => ofNodes (ofNode node :: written) rest

/-- The choices of a block. -/
def ofEntries (written : List Json) : List Entry → List Json
  | [] => written.reverse
  | ⟨text, result, sticky, conditions, fallback, immediate⟩ :: rest =>
    ofEntries
      (.object
        ([("text", .array (ofNodes [] text)), ("result", .array (ofNodes [] result)),
          ("sticky", .bool sticky)] ++
          unlessEmpty "conditions" (conditions.map ofExpression) ++
          [("fallback", .bool fallback), ("immediately_continue", .bool immediate)]) :: written)
      rest

/-- The branches of a conditional. -/
def ofBranches (written : List Json) : List Branch → List Json
  | [] => written.reverse
  | ⟨condition, content⟩ :: rest =>
    ofBranches
      (.object [("condition", ofExpression condition), ("content", .array (ofNodes [] content))] ::
        written)
      rest

/-- A run that may be missing. -/
def ofOptional : Option (List Node) → Option Json
  | none => none
  | some content => some (.array (ofNodes [] content))

/-- The groups of a sequence. -/
def ofGroups (written : List Json) : List (List Node) → List Json
  | [] => written.reverse
  | group :: rest => ofGroups (.array (ofNodes [] group) :: written) rest

end

/-- A run of nodes. -/
def ofContent (content : Content) : Json := .array (ofNodes [] content)

/-! ## Knots -/

/-- A parameter. -/
def ofParameter (p : Parameter) : Json :=
  .object [("name", .string p.name), ("by_ref", .bool p.byRef)]

/-- A gather. -/
def ofGather (g : Gather) : Json :=
  .object
    [("name", .string g.name), ("uuid", ofId g.id), ("nesting_level", ofNat g.level.toNat),
     ("choice_index", ofNat g.choiceIndex)]

/-- A stitch. -/
def ofStitch (s : Stitch) : Json :=
  .object
    ([("name", .string s.name), ("uuid", ofId s.id), ("offset", ofNat s.offset)] ++
      unlessEmpty "gather_points" (s.gathers.map ofGather))

/-- A knot. -/
def ofKnot (k : Knot) : Json :=
  .object
    ([("name", .string k.name), ("uuid", ofId k.id)] ++
      unlessEmpty "parameters" (k.parameters.map ofParameter) ++
      [("objects", ofContent k.objects)] ++
      unlessEmpty "stitches" (k.stitches.map ofStitch) ++
      unlessEmpty "gather_points" (k.gathers.map ofGather) ++
      [("is_function", .bool k.isFunction)])

/-- The document of a story. -/
def ofScript (s : Script) : Json := .array (s.knots.map ofKnot)

/-- The text of the document of a story. -/
def write (s : Script) : String := (ofScript s).pretty

end Skein.Document
