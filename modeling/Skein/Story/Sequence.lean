import Skein.Random.Generator
import Skein.Story.Content

set_option autoImplicit false

/-!
# Story: progress through sequences

How a sequence picks the group it shows next, given how far it has come.
-/

namespace Skein

/-- How far a sequence has come: the number of visits, and for shuffles the groups that
have not been shown in this round. -/
structure Progress where
  visits : Nat := 0
  unseen : List Nat := []
  deriving DecidableEq, Repr, Inhabited

/-- Takes the item at a place out of a list and moves the last item there. -/
def swapRemove? (list : List Nat) (index : Nat) : Option (Nat × List Nat) := do
  let taken ← list[index]?
  let last ← list.getLast?
  return (taken, (list.set index last).dropLast)

namespace Progress

/-- Draws one of the groups not shown yet. -/
def draw (p : Progress) (g : Random.Generator) : Option Nat × Progress × Random.Generator :=
  if p.unseen.isEmpty then (none, p, g)
  else
    let (index, g) := g.index p.unseen.length
    match swapRemove? p.unseen index with
    | some (group, unseen) => (some group, { p with unseen := unseen }, g)
    | none => (none, p, g)

/-- The group that a sequence of `groups` groups shows on the next visit. -/
def pick (kind : SequenceKind) (groups : Nat) (p : Progress) (g : Random.Generator) :
    Option Nat × Progress × Random.Generator :=
  let visit := p.visits
  let next := { p with visits := visit + 1 }
  let fresh (n : Nat) : Progress := { next with unseen := List.range n }
  if groups = 0 then (none, p, g)
  else
    match kind with
    | .sequence => (some (min visit (groups - 1)), next, g)
    | .cycle => (some (visit % groups), next, g)
    | .onceOnly => (if visit < groups then some visit else none, next, g)
    | .shuffle => (if p.unseen.isEmpty then fresh groups else next).draw g
    | .shuffleOnce =>
      if groups ≤ visit then (none, next, g)
      else (if visit = 0 then fresh groups else next).draw g
    | .shuffleStop =>
      if groups - 1 ≤ visit then (some (groups - 1), next, g)
      else (if visit = 0 then fresh (groups - 1) else next).draw g

end Progress

end Skein
