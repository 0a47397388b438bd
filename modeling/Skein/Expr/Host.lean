import Skein.Expr.Store

set_option autoImplicit false

/-!
# Expr: the host of an evaluation

Expressions are evaluated for a host: a story, or a sandbox without one.  A host has a
state of its own, of which the evaluator sees the store, a few counters and a source of
randomness, and it may call functions back into the host.  An evaluation that fails
leaves the host in the state it had reached.
-/

namespace Skein

/-- An argument of a call: its value, and the variable it was read from if it was a plain
variable. -/
structure Argument where
  value : Value
  origin : Option String
  deriving DecidableEq

/-- What the evaluator needs of a host with states `σ` and failures `ε`. -/
structure Host (σ ε : Type) where
  /-- How a failed expression appears among the host's failures. -/
  fault : ExprFault → ε
  store : σ → Store
  withStore : σ → Store → σ
  /-- How often the section at a path was visited; nothing if there is no such section. -/
  readCount : σ → String → Option Int64
  /-- Turns since the section at a path was visited, -1 if it never was. -/
  turnsSince : σ → String → Option Int64
  turnIndex : σ → Int64
  choiceCount : σ → Int64
  /-- An integer between two bounds, both included. -/
  random : Int64 → Int64 → σ → Int64 × σ
  reseed : UInt64 → σ → σ
  isStoryFunction : σ → String → Bool
  callStory : String → List Argument → EStateM ε σ (Option Value)
  isExternal : σ → String → Bool
  callExternal : String → List Value → EStateM ε σ (Option Value)

namespace Host

variable {σ ε : Type} (h : Host σ ε)

/-- Fails for a reason of the expression. -/
def fail {α : Type} (fault : ExprFault) : EStateM ε σ α := throw (h.fault fault)

/-- The outcome of an operation on values. -/
def ofValue {α : Type} : Except ValueFault α → EStateM ε σ α
  | .ok a => pure a
  | .error fault => h.fail (.value fault)

/-- The store of the current state. -/
def getStore : EStateM ε σ Store := do return h.store (← get)

/-- Replaces the store of the current state. -/
def setStore (store : Store) : EStateM ε σ Unit := modify fun s => h.withStore s store

/-- Writes a variable. -/
def setVariable (name : String) (value : Value) : EStateM ε σ Unit := do
  match (← h.getStore).set name value with
  | .ok store => h.setStore store
  | .error fault => h.fail fault

/-- Declares a temporary. -/
def declareTemporary (name : String) (value : Value) : EStateM ε σ Unit := do
  h.setStore ((← h.getStore).declareTemporary name value)

end Host

/-! ## Host functions -/

/-- A function that the host provides.  Its answer may depend on the calls made before. -/
structure External where
  /-- The answer to arguments, given the arguments of all earlier calls, latest first. -/
  respond : List (List Value) → List Value → Option Value
  /-- The arguments of the calls so far, latest first. -/
  calls : List (List Value) := []

namespace External

/-- A function that remembers nothing. -/
def pure (f : List Value → Option Value) : External := { respond := fun _ => f }

/-- The answer to a call, and the function after it. -/
def call (f : External) (args : List Value) : Option Value × External :=
  (f.respond f.calls args, { f with calls := args :: f.calls })

end External

/-- The functions that a host provides, by name. -/
abbrev Externals := Table String External

/-- Calls a function by name. -/
def Externals.call (externals : Externals) (name : String) (args : List Value) :
    Except ExprFault (Option Value × Externals) :=
  match externals.get? name with
  | none => .error (.unknownFunction name)
  | some f =>
    let (answer, f) := f.call args
    .ok (answer, externals.insert name f)

end Skein
