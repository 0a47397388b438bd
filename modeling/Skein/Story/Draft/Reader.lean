import Skein.Story.Document.Reader
import Skein.Story.Draft.Basic

set_option autoImplicit false

/-!
# Story: reading drafts

A draft can be written as a document.  Every part of it is an array with the name of the
part and what belongs to it, such as `["line", "Hello."]` or
`["choice", [["option", "Go on", [["end"]]]]]`.
-/

namespace Skein.Draft.Read

open Skein.Document (Reads malformed many string int64 bool natBelow id orMalformed)

/-! ## Commands -/

/-- A command: its name and its arguments. -/
def command : Outline → Reads (String × List Outline)
  | .array (.string name :: args) => .ok (name, args)
  | _ => malformed

/-- Reads what each item stands for, one after the other. -/
def runs {α : Type} (read : Outline → Reads (List α)) (outline : Outline) : Reads (List α) := do
  return (← many read outline).flatten

/-- Reads how often something is repeated. -/
def repetitions (outline : Outline) : Reads Nat := natBelow UInt64.size outline

/-- Reads an item of a list declaration. -/
def listEntry : Outline → Reads ListEntry
  | .array [label, value, selected] => do
    return { label := ← string label, value := ← int64 value, selected := ← bool selected }
  | _ => malformed

/-! ## Content -/

/-- Reads something said of a choice, given how to read parts. -/
def trait (parts : Outline → Reads (List Part)) (outline : Outline) : Reads Trait := do
  match ← command outline with
  | ("label", [.string s]) => return .label s
  | ("mixed", [.string shared, .string choiceOnly, .string outputOnly]) =>
    return .regions shared choiceOnly outputOnly
  | ("text", [body]) => return .text (← parts body)
  | ("result", [body]) => return .result (← parts body)
  | ("condition", [.string source]) => return .condition source
  | ("sticky", []) => return .sticky
  | ("fallback", []) => return .fallback
  | ("immediately_continue", []) => return .immediate
  | _ => malformed

/-- Reads a choice, given how to read parts. -/
def entry (parts : Outline → Reads (List Part)) (outline : Outline) : Reads (List Trait) := do
  match ← command outline with
  | ("option", [.string s, body]) => return [.label s, .result (← parts body)]
  | ("sticky", [.string s, body]) => return [.label s, .sticky, .result (← parts body)]
  | ("fallback", [body]) => return [.fallback, .result (← parts body)]
  | ("entry", [traits]) => many (trait parts) traits
  | _ => malformed

/-- Reads an arm of a conditional, given how to read parts. -/
def arm (parts : Outline → Reads (List Part)) (outline : Outline) : Reads Arm := do
  match ← command outline with
  | ("when", [.string source, body]) => return .when source (← parts body)
  | ("otherwise", [body]) => return .otherwise (← parts body)
  | _ => malformed

/-- Reads groups of a sequence, given how to read parts. -/
def group (parts : Outline → Reads (List Part)) (outline : Outline) : Reads (List (List Part)) := do
  match ← command outline with
  | ("group", [body]) => return [← parts body]
  | ("text", [.string s]) => return [[.text s]]
  | ("text", [.string s, n]) => return List.replicate (← repetitions n) [.text s]
  | _ => malformed

/-- Reads a divert. -/
def divert? : String × List Outline → Option (Reads Part)
  | ("divert", [.string t]) => some (return .divert .goto (some t) [])
  | ("divert_with", [.string t, args]) =>
    some (do return .divert .goto (some t) (← many string args))
  | ("tunnel", [.string t]) => some (return .divert .tunnel (some t) [])
  | ("tunnel_with", [.string t, args]) =>
    some (do return .divert .tunnel (some t) (← many string args))
  | ("tunnel_return", []) => some (return .divert .tunnelReturn none [])
  | ("tunnel_return_to", [.string t]) => some (return .divert .tunnelReturn (some t) [])
  | ("thread", [.string t]) => some (return .divert .thread (some t) [])
  | ("end", []) => some (return .divert .goto (some endTarget) [])
  | ("done", []) => some (return .divert .goto (some doneTarget) [])
  | _ => none

/-- Reads parts that stand on their own. -/
def leaf? : String × List Outline → Option (Reads (List Part))
  | ("text", [.string s]) => some (return [.text s])
  | ("text", [.string s, n]) =>
    some (do return [.text (String.join (List.replicate (← repetitions n) s))])
  | ("line", [.string s]) => some (return [.text s, .lineBreak])
  | ("line_break", []) => some (return [.lineBreak])
  | ("glue", []) => some (return [.glue])
  | ("tag", [.string s]) => some (return [.tag s])
  | ("interpolate", [.string source]) => some (return [.interpolation source])
  | ("logic", [.string source]) => some (return [.logic source])
  | ("global", [.string name, .string source]) => some (return [.global name source false])
  | ("constant", [.string name, .string source]) => some (return [.global name source true])
  | ("list", [.string name, entries]) =>
    some (do return [.list { name := name, entries := ← many listEntry entries }])
  | ("object", [outline]) => some (do return [.node (← Document.readNode outline)])
  | _ => none

/-- Reads parts that hold others, given how to read parts. -/
def holder (parts : Outline → Reads (List Part)) : String × List Outline → Reads Part
  | ("choice", [entries]) => do return .choice (← many (entry parts) entries)
  | ("conditional", [arms]) => do return .conditional none (← many (arm parts) arms)
  | ("switch", [.string subject, arms]) => do
    return .conditional (some subject) (← many (arm parts) arms)
  | ("sequence", [.string kind, groups]) => do
    let kind ← orMalformed (Document.sequenceNamed? kind)
    return .sequence kind (← runs (group parts) groups)
  | _ => malformed

/-- Reads the parts that a command stands for, given how to read parts. -/
def partsOf (parts : Outline → Reads (List Part)) (outline : Outline) : Reads (List Part) := do
  let c ← command outline
  match leaf? c, divert? c with
  | some leaf, _ => leaf
  | none, some divert => return [← divert]
  | none, none => return [← holder parts c]

/-- Reads the parts that a command stands for, in a document of at most `bound` levels. -/
def part : (bound : Nat) → Outline → Reads (List Part)
  | 0, _ => malformed
  | bound + 1, outline => partsOf (runs (part bound)) outline

/-! ## Knots -/

/-- A parameter of a knot. -/
def parameter (name : String) (byRef : Bool) : KnotPart :=
  .parameter { name := name, byRef := byRef }

/-- Reads a part of a knot. -/
def knotPart (outline : Outline) : Reads (List KnotPart) := do
  match ← command outline with
  | ("param", [.string name]) => return [parameter name false]
  | ("ref_param", [.string name]) => return [parameter name true]
  | ("stitch", [.string name]) => return [.stitch name]
  | ("gather", [.string name]) => return [.gather name]
  | _ => return (← part outline.height outline).map .part

/-- Reads a section. -/
def chapter (outline : Outline) : Reads Section := do
  match ← command outline with
  | ("knot", [.string name, body]) => return .knot name false (← runs knotPart body)
  | ("function", [.string name, parameters, body]) =>
    let parameters := (← many string parameters).map (parameter · false)
    return .knot name true (parameters ++ (← runs knotPart body))
  | ("add", [outline]) => return .ready (← Document.knot outline)
  | ("next_id", []) => return .skippedId
  | _ => malformed

/-- Reads the sections of a draft. -/
def sections (outline : Outline) : Reads (List Section) := many chapter outline

end Skein.Draft.Read
