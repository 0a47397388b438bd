import Skein.Story.Script

set_option autoImplicit false

/-!
# Story: the names of the document form

A story can be written as a document: an array of knots, each a record.  A node is written
as its name alone, or as a record with its name as the only field.
-/

namespace Skein.Document

/-- The name of a node. -/
def nodeName : Node → String
  | .text _ => "text"
  | .lineBreak => "line_break"
  | .glue => "glue"
  | .divert _ => "divert"
  | .choice _ _ => "choice"
  | .marker _ => "choice_text_mix"
  | .tag _ => "tag"
  | .interpolation _ => "interpolation"
  | .conditional _ _ _ => "conditional"
  | .sequence _ _ _ => "sequence"
  | .global _ => "global_variable"
  | .logic _ => "logic"
  | .list _ => "list_declaration"

/-- The name of a kind of divert. -/
def divertName : DivertKind → String
  | .goto => "goto"
  | .tunnel => "tunnel"
  | .tunnelReturn => "tunnel_return"
  | .thread => "thread"

/-- The kind of divert with a name. -/
def divertNamed? : String → Option DivertKind
  | "goto" => some .goto
  | "tunnel" => some .tunnel
  | "tunnel_return" => some .tunnelReturn
  | "thread" => some .thread
  | _ => none

/-- The name of a border. -/
def markerName : Marker → String
  | .start => "start"
  | .stop => "end"

/-- The border with a name. -/
def markerNamed? : String → Option Marker
  | "start" => some .start
  | "end" => some .stop
  | _ => none

/-- The name of a kind of sequence. -/
def sequenceName : SequenceKind → String
  | .sequence => "sequence"
  | .cycle => "cycle"
  | .onceOnly => "once_only"
  | .shuffle => "shuffle"
  | .shuffleOnce => "shuffle_once"
  | .shuffleStop => "shuffle_stop"

/-- The kind of sequence with a name. -/
def sequenceNamed? : String → Option SequenceKind
  | "sequence" => some .sequence
  | "cycle" => some .cycle
  | "once_only" => some .onceOnly
  | "shuffle" => some .shuffle
  | "shuffle_once" => some .shuffleOnce
  | "shuffle_stop" => some .shuffleStop
  | _ => none

end Skein.Document
