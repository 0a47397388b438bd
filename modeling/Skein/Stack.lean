set_option autoImplicit false

/-!
# Stacks

A list of items, innermost first, that knows its own size.  Calls that go deep ask at every
step how many items there are, so the size is kept and never counted anew.
-/

namespace Skein

/-- Items, innermost first, and how many they are. -/
structure Stack (α : Type) where
  items : List α := []
  size : Nat := items.length
  size_eq : size = items.length := by rfl

namespace Stack

variable {α : Type}

instance : EmptyCollection (Stack α) := ⟨{}⟩

instance : Inhabited (Stack α) := ⟨∅⟩

/-- The stack of some items, innermost first. -/
def ofList (items : List α) : Stack α := { items := items }

/-- The innermost item. -/
def top? (s : Stack α) : Option α := s.items.head?

/-- Whether there is no item. -/
def isEmpty (s : Stack α) : Bool := s.items.isEmpty

/-- Adds an item inside all others. -/
def push (s : Stack α) (item : α) : Stack α where
  items := item :: s.items
  size := s.size + 1
  size_eq := by simp [s.size_eq]

/-- Takes the innermost item away, if there is one. -/
def pop (s : Stack α) : Stack α where
  items := s.items.tail
  size := s.size - 1
  size_eq := by simp [s.size_eq]

/-- Changes the innermost item, if there is one. -/
def mapTop (f : α → α) (s : Stack α) : Stack α where
  items := s.items.modifyHead f
  size := s.size
  size_eq := by simp [s.size_eq]

end Stack

end Skein
