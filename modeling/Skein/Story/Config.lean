import Skein.Story.Script

set_option autoImplicit false

/-!
# Story: configuration

A story is a script and the settings it is played with.
-/

namespace Skein

/-- How a story is played. -/
structure Config where
  /-- The seed of shuffles and random numbers. -/
  seed : UInt64 := 42
  /-- The most steps that one call may take. -/
  stepLimit : Nat := 100000
  /-- Where to start; without it, at the first knot that is not a function. -/
  entryPoint : Option String := none
  /-- How deeply story functions may call one another. -/
  callDepth : Nat := 1000000
  deriving DecidableEq, Inhabited

/-- The configuration with another step limit, which is at least one. -/
def Config.withStepLimit (c : Config) (limit : Nat) : Config := { c with stepLimit := max limit 1 }

/-- A script and how it is played. -/
structure Story where
  script : Script
  config : Config := {}

end Skein
