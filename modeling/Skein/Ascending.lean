set_option autoImplicit false

/-!
# Ascending sets

A finite set kept as its members in strictly ascending order.  The order makes the
representation unique, so equal sets are equal values, and makes the least and the
greatest member the two ends of the list.
-/

namespace Skein

open Std (TransOrd LawfulEqOrd OrientedCmp TransCmp LawfulEqCmp)

/-- A finite set as the strictly ascending list of its members. -/
structure Ascending (α : Type) [Ord α] where
  toList : List α
  ascending : toList.Pairwise fun x y => compare x y = .lt
  deriving DecidableEq

namespace Ascending

variable {α : Type} [Ord α]

/-- Puts a member into its place in an ascending list. -/
def place (x : α) : List α → List α
  | [] => [x]
  | y :: rest =>
    match compare x y with
    | .lt => x :: y :: rest
    | .eq => y :: rest
    | .gt => y :: place x rest

theorem mem_of_mem_place {x z : α} {list : List α} (h : z ∈ place x list) :
    z = x ∨ z ∈ list := by
  induction list with
  | nil => simpa [place] using h
  | cons y rest ih =>
    simp only [place] at h
    split at h
    · simpa using h
    · exact .inr h
    · rcases List.mem_cons.1 h with rfl | h
      · simp
      · rcases ih h with rfl | h <;> simp [*]

theorem pairwise_place [TransOrd α] {x : α} {list : List α}
    (h : list.Pairwise fun x y => compare x y = .lt) :
    (place x list).Pairwise fun x y => compare x y = .lt := by
  induction list with
  | nil => simp [place]
  | cons y rest ih =>
    obtain ⟨first, later⟩ := List.pairwise_cons.1 h
    simp only [place]
    split
    · rename_i below
      refine List.pairwise_cons.2 ⟨fun z hz => ?_, h⟩
      rcases List.mem_cons.1 hz with rfl | hz
      · exact below
      · exact TransCmp.lt_trans below (first z hz)
    · exact h
    · rename_i above
      refine List.pairwise_cons.2 ⟨fun z hz => ?_, ih later⟩
      rcases mem_of_mem_place hz with rfl | hz
      · exact OrientedCmp.lt_of_gt above
      · exact first z hz

/-- The empty set. -/
def empty : Ascending α :=
  { toList := [], ascending := .nil }

instance : EmptyCollection (Ascending α) := ⟨empty⟩

instance : Inhabited (Ascending α) := ⟨empty⟩

instance : Membership α (Ascending α) := ⟨fun s x => x ∈ s.toList⟩

instance [DecidableEq α] (x : α) (s : Ascending α) : Decidable (x ∈ s) :=
  inferInstanceAs (Decidable (x ∈ s.toList))

/-- The number of members. -/
def size (s : Ascending α) : Nat := s.toList.length

/-- Whether the set has no member. -/
def isEmpty (s : Ascending α) : Bool := s.toList.isEmpty

/-- The least member. -/
def least? (s : Ascending α) : Option α := s.toList.head?

/-- The greatest member. -/
def greatest? (s : Ascending α) : Option α := s.toList.getLast?

/-- The set with one more member. -/
def insert [TransOrd α] (s : Ascending α) (x : α) : Ascending α :=
  { toList := place x s.toList, ascending := pairwise_place s.ascending }

/-- The set with the members of a list, in any order and possibly repeated. -/
def ofList [TransOrd α] (list : List α) : Ascending α :=
  list.foldl insert empty

/-- The set with one member. -/
def singleton (x : α) : Ascending α :=
  { toList := [x], ascending := List.pairwise_singleton _ _ }

/-- The members of either set. -/
def union [TransOrd α] (s t : Ascending α) : Ascending α :=
  t.toList.foldl insert s

/-- The members that pass a test. -/
def filter (test : α → Bool) (s : Ascending α) : Ascending α :=
  { toList := s.toList.filter test, ascending := s.ascending.filter test }

/-- The members of the first set that are not in the second. -/
def difference [DecidableEq α] (s t : Ascending α) : Ascending α :=
  s.filter fun x => x ∉ t

/-- The members of both sets. -/
def intersection [DecidableEq α] (s t : Ascending α) : Ascending α :=
  s.filter fun x => x ∈ t

/-- Whether every member of the second set is in the first. -/
def includes [DecidableEq α] (s t : Ascending α) : Bool :=
  t.toList.all fun x => x ∈ s

end Ascending

end Skein
