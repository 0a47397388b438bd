import Skein.Expr.Fault

set_option autoImplicit false

/-!
# Story: causes of failure

Why a story cannot be loaded or cannot go on, by the part that fails, and how each cause
is worded.
-/

namespace Skein

/-- Why control cannot go where the content asks. -/
inductive NavigationFault where
  /-- The path names no section. -/
  | unknownTarget (path : String)
  /-- A return from a tunnel outside one. -/
  | tunnelReturnWithoutTunnel
  /-- No frame is left. -/
  | emptyFrameStack
  /-- A divert inside a function. -/
  | divertInFunction (target : String)
  deriving DecidableEq

/-- The wording of a failure to move control. -/
def NavigationFault.message : NavigationFault → String
  | .unknownTarget path => "unknown divert target: " ++ path
  | .tunnelReturnWithoutTunnel => "tunnel return outside a tunnel"
  | .emptyFrameStack => "frame stack is empty"
  | .divertInFunction target => "divert to " ++ target ++ " inside a function"

/-- How content contradicts itself. -/
inductive StructureFault where
  /-- Two knots with one name. -/
  | duplicateKnot (name : String)
  /-- No knot to start at. -/
  | noEntryPoint
  /-- A path with more than three parts. -/
  | pathTooDeep (path : String)
  /-- A knot that is called and is not a function. -/
  | notAFunction (name : String)
  /-- The wrong number of arguments for a knot. -/
  | argumentCount (target : String) (expected found : Nat)
  /-- A reference parameter that is given something other than a variable. -/
  | byRefArgument (target parameter : String)
  /-- A `return` outside a function. -/
  | returnOutsideFunction
  /-- A choice inside a function. -/
  | choiceInFunction (name : String)
  /-- A stitch that starts outside its knot or before the stitch in front of it. -/
  | invalidStitchOffset (knot stitch : String)
  /-- A gather that does not follow a choice. -/
  | invalidGather (knot gather : String)
  deriving DecidableEq

/-- The wording of a contradiction. -/
def StructureFault.message : StructureFault → String
  | .duplicateKnot name => "duplicate knot: " ++ name
  | .noEntryPoint => "no entry point: the story has no non-function knot"
  | .pathTooDeep path => "path has too many segments: " ++ path
  | .notAFunction name => name ++ " is not a function"
  | .argumentCount target expected found =>
    target ++ " expects " ++ toString expected ++ " argument(s), got " ++ toString found
  | .byRefArgument target parameter =>
    "parameter " ++ parameter ++ " of " ++ target ++ " must be passed a variable"
  | .returnOutsideFunction => "return outside a function"
  | .choiceInFunction name => "choice inside function " ++ name
  | .invalidStitchOffset knot stitch => "stitch " ++ stitch ++ " of " ++ knot ++ " has an invalid offset"
  | .invalidGather knot gather => "gather " ++ gather ++ " of " ++ knot ++ " does not follow a choice"

/-- What a tag byte tells apart. -/
inductive Tagged where
  | bool
  | divertKind
  | marker
  | sequenceKind
  | node
  deriving DecidableEq, Repr

/-- How what a tag tells apart is called. -/
def Tagged.text : Tagged → String
  | .bool => "bool"
  | .divertKind => "divert kind"
  | .marker => "mix marker"
  | .sequenceKind => "sequence kind"
  | .node => "content object"

/-- Why bytes are not a story, or a story has no bytes. -/
inductive FormatFault where
  /-- The first bytes are not those of the format. -/
  | badMagic
  /-- Another version of the format. -/
  | unsupportedVersion (version : UInt8)
  /-- The bytes end inside a record. -/
  | unexpectedEnd
  /-- A tag byte without a meaning. -/
  | invalidTag (what : Tagged) (tag : UInt8)
  /-- A string that is not UTF-8. -/
  | invalidUtf8
  /-- An identity of more than 32 bits. -/
  | idOverflow
  /-- A string too long for its length field. -/
  | stringTooLong (size : Nat)
  /-- A collection too long for its count field. -/
  | countTooLarge (count : Nat)
  /-- A stored expression that cannot be read. -/
  | expression (source : String) (fault : ExprFault)
  deriving DecidableEq

/-- The wording of a failure of the binary format. -/
def FormatFault.message : FormatFault → String
  | .badMagic => "bad magic number"
  | .unsupportedVersion version => "unsupported format version " ++ toString version.toNat
  | .unexpectedEnd => "unexpected end of data"
  | .invalidTag what tag => "invalid " ++ what.text ++ " tag: " ++ toString tag.toNat
  | .invalidUtf8 => "invalid utf-8 in string"
  | .idOverflow => "uuid varint overflow"
  | .stringTooLong size => "string of " ++ toString size ++ " bytes is too long"
  | .countTooLarge count => "collection of " ++ toString count ++ " items is too long"
  | .expression source fault => "invalid expression " ++ Text.quote source ++ ": " ++ fault.message

/-- Why a document is not a story. -/
inductive DocumentFault where
  /-- The text is no document, or the document does not have the shape of a story. -/
  | malformed
  /-- An expression that cannot be read. -/
  | expression (fault : ExprFault)
  /-- Knots that contradict each other. -/
  | structural (fault : StructureFault)
  deriving DecidableEq

/-- The wording of a failure of the document form, where there is one. -/
def DocumentFault.message? : DocumentFault → Option String
  | .malformed => none
  | .expression fault => some fault.message
  | .structural fault => some fault.message

/-- Why a story cannot be loaded or cannot go on. -/
inductive StoryFault where
  | expression (fault : ExprFault)
  | navigation (fault : NavigationFault)
  | structural (fault : StructureFault)
  /-- A choice that is not on offer. -/
  | invalidChoice (index available : Nat)
  /-- There is nothing left to read. -/
  | cannotContinue
  /-- One call took more steps than are allowed. -/
  | stepLimitExceeded (limit : Nat)
  /-- Functions called one another more deeply than is allowed. -/
  | callDepthExceeded
  /-- A variable that was never declared. -/
  | unknownVariable (name : String)
  | format (fault : FormatFault)
  | document (fault : DocumentFault)
  deriving DecidableEq

/-- The wording of a failure. -/
def StoryFault.message : StoryFault → String
  | .expression fault => "expression error: " ++ fault.message
  | .navigation fault => "navigation error: " ++ fault.message
  | .structural fault => "structure error: " ++ fault.message
  | .invalidChoice index available =>
    "invalid choice " ++ toString index ++ ": " ++ toString available ++ " choice(s) available"
  | .cannotContinue => "the story cannot continue"
  | .stepLimitExceeded limit => "step limit of " ++ toString limit ++ " exceeded"
  | .callDepthExceeded => "functions are nested too deeply"
  | .unknownVariable name => "unknown variable: " ++ name
  | .format fault => "story format error: " ++ fault.message
  | .document fault => "json error: " ++ fault.message?.getD "malformed document"

end Skein
