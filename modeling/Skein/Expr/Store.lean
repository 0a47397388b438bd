import Skein.Expr.Fault
import Skein.Expr.Scope

set_option autoImplicit false

/-!
# Expr: variables

The store holds global variables, constants, list definitions and a stack of scopes, one
for each active call.  A scope has temporaries and aliases; an alias makes a reference
parameter stand for a variable of the caller.  A name is first followed through aliases,
innermost scope first, and is then looked up among constants, temporaries (innermost
scope first) and globals.  Observers are noted whenever a global they watch changes.
-/

namespace Skein

/-- The identity of an observer. -/
structure ObserverId where
  number : Nat
  deriving DecidableEq, Repr, Inhabited

/-- A global variable changed: the observer to be told, the variable and its new value. -/
structure Notice where
  observer : ObserverId
  name : String
  value : Value
  deriving DecidableEq

/-- Variables, scopes, list definitions and observers.  There is always a scope. -/
structure Store where
  globals : Table String Value := ∅
  constants : Table String Value := ∅
  /-- The innermost scope. -/
  scope : Scope := {}
  /-- The scopes around it. -/
  enclosing : Enclosing := ∅
  registry : Registry := ∅
  /-- The observers of each global, in order of registration. -/
  observers : Table String (List ObserverId) := ∅
  /-- The changes that observers have to be told, oldest first. -/
  notices : List Notice := []
  deriving DecidableEq, Inhabited

namespace Store

/-! ## Scopes -/

/-- All scopes, innermost first. -/
def scopes (s : Store) : List Scope := s.scope :: s.enclosing.scopes

/-- The number of scopes. -/
def depth (s : Store) : Nat := s.scopes.length

/-- The store with other scopes, innermost first; with none, it has one empty scope. -/
def withScopes (s : Store) : List Scope → Store
  | [] => { s with scope := {}, enclosing := ∅ }
  | scope :: outer => { s with scope := scope, enclosing := .ofList outer }

/-- Enters a new scope. -/
def pushScope (s : Store) : Store :=
  { s with scope := {}, enclosing := s.enclosing.push s.scope }

/-- Leaves the innermost scope; the outermost one is never left. -/
def popScope? (s : Store) : Option Store :=
  s.enclosing.pop?.map fun (scope, outer) => { s with scope := scope, enclosing := outer }

/-- Leaves the innermost scope if there is one around it. -/
def popScope (s : Store) : Store := s.popScope?.getD s

/-- Empties the innermost scope. -/
def resetScope (s : Store) : Store := { s with scope := {} }

/-! ## Names -/

/-- What a name is an alias of, in the innermost scope that has it as an alias. -/
def alias? (s : Store) (name : String) : Option String :=
  (s.scope.aliases.get? name).or (s.enclosing.alias? name)

/-- The names that are aliases in some scope; one may be named twice. -/
def aliases (s : Store) : List String := s.scope.aliases.keys ++ s.enclosing.bound.aliases

/-- Follows aliases from a name, at most `bound` of them, and stops before a name it has
already passed. -/
def follow (s : Store) (passed : List String) : (bound : Nat) → String → String
  | 0, name => name
  | bound + 1, name =>
    match s.alias? name with
    | none => name
    | some target =>
      if target ∈ passed then name else s.follow (target :: passed) bound target

/-- The name that a name finally stands for.  Every name on the way is passed once, and all
but the last are aliases, so their number bounds the search. -/
def canonical (s : Store) (name : String) : String :=
  s.follow [name] s.aliases.length name

/-! ## Reading -/

/-- The temporary of a name, in the innermost scope that has it. -/
def temporary? (s : Store) (name : String) : Option Value :=
  (s.scope.temporaries.get? name).or (s.enclosing.temporary? name)

/-- The value of a canonical name. -/
def lookup (s : Store) (name : String) : Option Value :=
  (s.constants.get? name).or ((s.temporary? name).or (s.globals.get? name))

/-- The value of a name. -/
def get? (s : Store) (name : String) : Option Value := s.lookup (s.canonical name)

/-- Whether a name has a value. -/
def contains (s : Store) (name : String) : Bool := (s.get? name).isSome

/-- Whether a name stands for a constant. -/
def isConstant (s : Store) (name : String) : Bool := s.constants.contains (s.canonical name)

/-- Whether there is a global of exactly this name. -/
def hasGlobal (s : Store) (name : String) : Bool := s.globals.contains name

/-! ## Writing -/

/-- Whether a write of the value changes the global. -/
def changes (s : Store) (name : String) (value : Value) : Bool :=
  match s.globals.get? name with
  | some old => !old.same value
  | none => true

/-- The notices that a change of a global gives rise to. -/
def noticesOf (s : Store) (name : String) (value : Value) : List Notice :=
  ((s.observers.get? name).getD []).map
    fun id => { observer := id, name := name, value := value }

/-- Writes a global, and notes its observers if that changes it. -/
def writeGlobal (s : Store) (name : String) (value : Value) : Store :=
  { s with
    globals := s.globals.insert name value
    notices := if s.changes name value then s.notices ++ s.noticesOf name value else s.notices }

/-- Writes a variable: the innermost temporary that the name stands for, or else the
global, which is created if need be. -/
def set (s : Store) (name : String) (value : Value) : Except ExprFault Store :=
  let name := s.canonical name
  if s.constants.contains name then .error (.assignToConstant name)
  else
    match s.scope.write? name value with
    | some scope => .ok { s with scope := scope }
    | none =>
      match s.enclosing.write? name value with
      | some enclosing => .ok { s with enclosing := enclosing }
      | none => .ok (s.writeGlobal name value)

/-- Declares a temporary in the innermost scope, in place of an alias of that name. -/
def declareTemporary (s : Store) (name : String) (value : Value) : Store :=
  { s with
    scope :=
      { temporaries := s.scope.temporaries.insert name value
        aliases := s.scope.aliases.erase name } }

/-- Makes a name stand for what another name stands for now, in the innermost scope and in
place of a temporary of that name. -/
def addAlias (s : Store) (name target : String) : Store :=
  { s with
    scope :=
      { temporaries := s.scope.temporaries.erase name
        aliases := s.scope.aliases.insert name (s.canonical target) } }

/-- Defines a global, noting no observer. -/
def defineGlobal (s : Store) (name : String) (value : Value) : Store :=
  { s with globals := s.globals.insert name value }

/-- Defines a constant. -/
def defineConstant (s : Store) (name : String) (value : Value) : Store :=
  { s with constants := s.constants.insert name value }

/-- Registers a list definition. -/
def defineList (s : Store) (name : String) (entries : List (String × Int64)) :
    Except ValueFault (DefinitionId × Store) := do
  let (id, registry) ← s.registry.define name entries
  return (id, { s with registry := registry })

/-! ## Observers -/

/-- Adds an observer of a global, after those it has. -/
def observe (s : Store) (name : String) (id : ObserverId) : Store :=
  { s with observers := s.observers.insert name (((s.observers.get? name).getD []) ++ [id]) }

/-- Removes every observer of a global. -/
def unobserveAll (s : Store) (name : String) : Store :=
  { s with observers := s.observers.erase name }

/-- Removes an observer from one global. -/
def unobserve (s : Store) (name : String) (id : ObserverId) : Store :=
  match s.observers.get? name with
  | none => s
  | some ids => { s with observers := s.observers.insert name (ids.filter (· ≠ id)) }

/-- Removes an observer from every global. -/
def unobserveEverywhere (s : Store) (id : ObserverId) : Store :=
  { s with observers := s.observers.mapValues fun ids => ids.filter (· ≠ id) }

/-- The notices so far, and the store without them. -/
def takeNotices (s : Store) : List Notice × Store := (s.notices, { s with notices := [] })

end Store

end Skein
