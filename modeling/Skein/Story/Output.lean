import Skein.Text.Blank

set_option autoImplicit false

/-!
# Story: output

Text is gathered into lines.  A line break ends a line only if the line shows something.
Glue keeps line breaks off until more text comes, and glue right after a line has ended
opens that line again.
-/

namespace Skein

/-- A finished line: its text, and the tags attached while it was built. -/
structure Line where
  text : String := ""
  tags : List String := []
  deriving DecidableEq, Repr, Inhabited

/-- Finished lines, and the line being built. -/
structure Output where
  /-- The finished lines, oldest first. -/
  lines : List Line := []
  /-- The text of the line being built. -/
  current : String := ""
  /-- The tags of the line being built. -/
  tags : List String := []
  /-- Whether line breaks are kept off. -/
  glued : Bool := false
  /-- Whether glue would open the last line again. -/
  reopenable : Bool := false
  deriving DecidableEq, Repr, Inhabited

namespace Output

/-- Adds text to the line being built. -/
def pushText (o : Output) (text : String) : Output :=
  if text.isEmpty then o
  else
    { o with
      current := o.current ++ text
      glued := o.glued && Text.isInvisible text
      reopenable := false }

/-- Attaches a tag to the line being built. -/
def pushTag (o : Output) (tag : String) : Output :=
  { o with tags := o.tags ++ [Text.trim tag], reopenable := false }

/-- Ends the line being built. -/
def complete (o : Output) : Output :=
  { o with
    lines := o.lines ++ [{ text := Text.collapse o.current, tags := o.tags }]
    current := ""
    tags := [] }

/-- A line break. -/
def lineBreak (o : Output) : Output :=
  if o.glued || Text.isInvisible o.current then o
  else { o.complete with reopenable := true }

/-- The output with its last line opened again. -/
def reopen (o : Output) : Output :=
  match o.lines.getLast? with
  | some line => { o with lines := o.lines.dropLast, current := line.text, tags := line.tags }
  | none => o

/-- Joins the next text to the current line. -/
def glue (o : Output) : Output :=
  let o := if o.reopenable && o.current.isEmpty then o.reopen else o
  { o with reopenable := false, glued := true }

/-- Ends whatever is being built; tags without text make a line of their own. -/
def flush (o : Output) : Output :=
  let o :=
    if !Text.isInvisible o.current then o.complete
    else if o.tags.isEmpty then o
    else { o with lines := o.lines ++ [{ text := "", tags := o.tags }], current := "", tags := [] }
  { o with glued := false, reopenable := false }

/-- Whether a finished line is waiting. -/
def hasLine (o : Output) : Bool := !o.lines.isEmpty

/-- Takes the oldest finished line. -/
def popLine (o : Output) : Option Line × Output :=
  match o.lines with
  | [] => (none, o)
  | line :: rest => (some line, { o with lines := rest })

end Output

end Skein
