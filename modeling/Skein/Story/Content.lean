import Skein.Expr.Expression
import Skein.Story.NodeId

set_option autoImplicit false

/-!
# Story: content

What a knot is made of.  Content is a run of nodes; choices, conditionals and sequences
hold further content.  Running a story never changes its content.
-/

namespace Skein

/-- The divert target that ends the whole story. -/
def endTarget : String := "END"

/-- The divert target that ends the current flow. -/
def doneTarget : String := "DONE"

/-- How a divert moves control. -/
inductive DivertKind where
  /-- Control goes to the target and stays there. -/
  | goto
  /-- Control goes to the target and comes back. -/
  | tunnel
  /-- Control leaves a tunnel, and goes on to a target if there is one. -/
  | tunnelReturn
  /-- The target runs beside the current flow, which gathers its choices. -/
  | thread
  deriving DecidableEq, Repr

/-- A movement of control.  Only the return from a tunnel may lack a target. -/
structure Divert where
  kind : DivertKind
  target : Option String
  args : List Expression := []
  deriving DecidableEq

/-- The borders in the text of a choice.  What comes before `start` is shared, what lies
between the two is shown only in the list of choices, what comes after `stop` is printed
only when the choice is made. -/
inductive Marker where
  | start
  | stop
  deriving DecidableEq, Repr

/-- How a sequence picks its next group. -/
inductive SequenceKind where
  /-- In order, then the last one for ever. -/
  | sequence
  /-- In order, then again from the first. -/
  | cycle
  /-- In order, then none. -/
  | onceOnly
  /-- In random order, then again in another random order. -/
  | shuffle
  /-- In random order, then none. -/
  | shuffleOnce
  /-- In random order all but the last one, then the last one for ever. -/
  | shuffleStop
  deriving DecidableEq, Repr

/-- The declaration of a global variable or a constant. -/
structure GlobalDeclaration where
  name : String
  init : Expression
  constant : Bool
  deriving DecidableEq

/-- One item of a list declaration, and whether the list starts with it. -/
structure ListEntry where
  label : String
  value : Int64
  selected : Bool
  deriving DecidableEq

/-- The declaration of a list definition and of the global with its first selection. -/
structure ListDeclaration where
  name : String
  entries : List ListEntry
  deriving DecidableEq

mutual

/-- A piece of content. -/
inductive Node where
  /-- Literal text. -/
  | text (s : String)
  /-- The end of a line. -/
  | lineBreak
  /-- Joins what follows to the current line. -/
  | glue
  | divert (d : Divert)
  /-- A block of choices. -/
  | choice (id : NodeId) (entries : List Entry)
  /-- A border in the text of a choice. -/
  | marker (m : Marker)
  /-- A tag of the current line. -/
  | tag (s : String)
  /-- Prints the value of an expression. -/
  | interpolation (e : Expression)
  /-- The first branch whose condition is true or, with a subject, equal to the subject. -/
  | conditional (subject : Option Expression) (branches : List Branch)
      (otherwise : Option (List Node))
  /-- Alternatives, of which each visit shows one. -/
  | sequence (id : NodeId) (kind : SequenceKind) (groups : List (List Node))
  | global (g : GlobalDeclaration)
  /-- Evaluates an expression for its effects. -/
  | logic (e : Expression)
  | list (l : ListDeclaration)

/-- One choice of a block. -/
structure Entry where
  /-- The text of the choice. -/
  text : List Node
  /-- The content that follows once the choice is made. -/
  result : List Node
  /-- Whether the choice can be made again. -/
  sticky : Bool
  /-- All must hold for the choice to be on offer. -/
  conditions : List Expression
  /-- Never shown, but made when no other choice is on offer. -/
  fallback : Bool
  /-- Whether the text is not printed when the choice is made. -/
  immediate : Bool

/-- One arm of a conditional. -/
structure Branch where
  condition : Expression
  content : List Node

end

instance : Inhabited Node := ⟨.lineBreak⟩

instance : Inhabited Entry := ⟨⟨[], [], false, [], false, false⟩⟩

/-- A run of nodes. -/
abbrev Content := List Node

/-- Whether a node is a block of choices. -/
def Node.isChoice : Node → Bool
  | .choice .. => true
  | _ => false

/-! ## All nodes -/

namespace Content

mutual

/-- The node and every node inside it, each before what it holds, after those found
already; the result is in reverse. -/
def collectNode (found : List Node) : Node → List Node
  | .choice id entries => collectEntries (.choice id entries :: found) entries
  | .conditional subject branches otherwise =>
    collectOptional
      (collectBranches (.conditional subject branches otherwise :: found) branches) otherwise
  | .sequence id kind groups => collectGroups (.sequence id kind groups :: found) groups
  | node => node :: found

/-- The nodes of a run. -/
def collect (found : List Node) : List Node → List Node
  | [] => found
  | node :: rest => collect (collectNode found node) rest

/-- The nodes of choices: of each the text, then the result. -/
def collectEntries (found : List Node) : List Entry → List Node
  | [] => found
  | ⟨text, result, _, _, _, _⟩ :: rest => collectEntries (collect (collect found text) result) rest

/-- The nodes of branches. -/
def collectBranches (found : List Node) : List Branch → List Node
  | [] => found
  | ⟨_, content⟩ :: rest => collectBranches (collect found content) rest

/-- The nodes of a run that may be missing. -/
def collectOptional (found : List Node) : Option (List Node) → List Node
  | none => found
  | some content => collect found content

/-- The nodes of groups. -/
def collectGroups (found : List Node) : List (List Node) → List Node
  | [] => found
  | group :: rest => collectGroups (collect found group) rest

end

/-- Every node of a run, in reading order, each before what it holds. -/
def nodes (content : Content) : List Node := (collect [] content).reverse

end Content

end Skein
