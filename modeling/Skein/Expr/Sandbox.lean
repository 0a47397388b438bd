import Skein.Expr.Evaluate
import Skein.Random.Generator

set_option autoImplicit false

/-!
# Expr: the sandbox

A host without a story: variables, a source of randomness and host functions.
-/

namespace Skein

/-- A host for expressions that stand alone. -/
structure Sandbox where
  store : Store := {}
  generator : Random.Generator
  externals : Externals := ∅

namespace Sandbox

/-- A sandbox with nothing in it. -/
def ofSeed (seed : UInt64) : Sandbox := { generator := .ofSeed seed }

/-- Provides a host function, in place of one of the same name. -/
def bind (s : Sandbox) (name : String) (f : External) : Sandbox :=
  { s with externals := s.externals.insert name f }

/-- The names known in a sandbox. -/
def symbols (s : Sandbox) : Symbols :=
  { external := s.externals.contains
    story := fun _ => false
    list := s.store.registry.containsName }

/-- Calls a host function. -/
def callExternal (name : String) (args : List Value) :
    EStateM ExprFault Sandbox (Option Value) := do
  match (← get).externals.call name args with
  | .ok (answer, externals) =>
    modify fun s => { s with externals := externals }
    return answer
  | .error fault => throw fault

/-- The sandbox as a host: there are no sections, turns, choices or story functions. -/
def host : Host Sandbox ExprFault where
  fault := id
  store := store
  withStore s store := { s with store := store }
  readCount _ _ := none
  turnsSince _ _ := none
  turnIndex _ := 0
  choiceCount _ := 0
  random low high s :=
    let (n, generator) := s.generator.between low high
    (n, { s with generator := generator })
  reseed seed s := { s with generator := .ofSeed seed }
  isStoryFunction _ _ := false
  callStory name _ := throw (.unknownFunction name)
  isExternal s name := s.externals.contains name
  callExternal := callExternal

/-- Reads a source with the names known in the sandbox and evaluates it. -/
def eval (source : String) : EStateM ExprFault Sandbox (Option Value) := do
  match Expression.parse (← get).symbols source with
  | .ok e => e.value host
  | .error fault => throw fault

end Sandbox

end Skein
