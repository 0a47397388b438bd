import Skein.Table
import Skein.Value.Basic

set_option autoImplicit false

/-!
# Expr: scopes

A scope has the temporaries and aliases of one call; an alias makes a reference parameter
stand for a variable of the caller.  The scopes around the innermost one are searched from
the inside out.  Calls may go deep and most names are bound in no scope at all, so with each
scope goes what it and the scopes around it bind, and a name that none of them binds is not
searched for.  `Enclosing.temporary?_eq` and `Enclosing.alias?_eq` say that this is the
search of every scope.
-/

namespace Skein

/-- The temporaries and aliases of one call. -/
structure Scope where
  temporaries : Table String Value := ∅
  aliases : Table String String := ∅
  deriving DecidableEq, Inhabited

/-- The names that some scopes bind, each of them once. -/
structure Bound where
  temporaries : List String := []
  aliases : List String := []
  deriving DecidableEq, Inhabited

namespace Bound

/-- Adds names to a list of names, each unless it is there already. -/
def add (known names : List String) : List String :=
  names.foldl (fun known name => known.insert name) known

theorem mem_add (known names : List String) (name : String) :
    name ∈ add known names ↔ name ∈ names ∨ name ∈ known := by
  induction names generalizing known with
  | nil => simp [add]
  | cons first rest ih =>
    have step : add known (first :: rest) = add (known.insert first) rest := rfl
    rw [step, ih]
    simp only [List.mem_insert_iff, List.mem_cons]
    constructor
    · rintro (h | h | h) <;> simp [h]
    · rintro ((h | h) | h) <;> simp [h]

end Bound

namespace Scope

/-- Writes a temporary that the scope has; nothing if it does not have it. -/
def write? (scope : Scope) (name : String) (value : Value) : Option Scope :=
  if scope.temporaries.contains name then
    some { scope with temporaries := scope.temporaries.insert name value }
  else none

/-- What a scope and the scopes around it bind. -/
def bound (scope : Scope) (outer : Bound) : Bound where
  temporaries := Bound.add outer.temporaries scope.temporaries.keys
  aliases := Bound.add outer.aliases scope.aliases.keys

/-- For each scope what it and the scopes around it bind, innermost first. -/
def bounds : List Scope → List Bound
  | [] => []
  | scope :: outer => scope.bound ((bounds outer).headD {}) :: bounds outer

end Scope

/-- The scopes around the innermost one, innermost first, and for each of them what it and
the scopes around it bind. -/
structure Enclosing where
  scopes : List Scope := []
  bounds : List Bound := Scope.bounds scopes
  bounds_eq : bounds = Scope.bounds scopes := by rfl
  deriving DecidableEq

namespace Enclosing

instance : EmptyCollection Enclosing := ⟨{}⟩

instance : Inhabited Enclosing := ⟨∅⟩

/-- The given scopes, innermost first. -/
def ofList (scopes : List Scope) : Enclosing := { scopes := scopes }

/-- What the scopes bind. -/
def bound (e : Enclosing) : Bound := e.bounds.headD {}

/-- Adds a scope inside all others. -/
def push (e : Enclosing) (scope : Scope) : Enclosing where
  scopes := scope :: e.scopes
  bounds := scope.bound e.bound :: e.bounds
  bounds_eq := by simp [Scope.bounds, bound, e.bounds_eq]

/-- The innermost scope and those around it. -/
def pop? (e : Enclosing) : Option (Scope × Enclosing) :=
  match h : e.scopes with
  | [] => none
  | scope :: outer =>
    some (scope,
      { scopes := outer
        bounds := e.bounds.tail
        bounds_eq := by simp [e.bounds_eq, h, Scope.bounds] })

/-! ## Searching from the inside out -/

/-- The temporary of a name, in the innermost scope that has it. -/
def temporary? (e : Enclosing) (name : String) : Option Value :=
  if name ∈ e.bound.temporaries then
    e.scopes.findSome? fun scope => scope.temporaries.get? name
  else none

/-- What a name is an alias of, in the innermost scope that has it as an alias. -/
def alias? (e : Enclosing) (name : String) : Option String :=
  if name ∈ e.bound.aliases then
    e.scopes.findSome? fun scope => scope.aliases.get? name
  else none

/-- Writes a temporary in the innermost scope that has it; nothing if none has. -/
def writeIn? (name : String) (value : Value) : List Scope → Option (List Scope)
  | [] => none
  | scope :: outer =>
    match scope.write? name value with
    | some scope => some (scope :: outer)
    | none => (writeIn? name value outer).map (scope :: ·)

/-- Writes a temporary in the innermost scope that has it; nothing if none has. -/
def write? (e : Enclosing) (name : String) (value : Value) : Option Enclosing :=
  if name ∈ e.bound.temporaries then (writeIn? name value e.scopes).map ofList else none

/-! ## The search finds what there is -/

theorem findSome?_temporaries (name : String) (scopes : List Scope)
    (h : name ∉ ((Scope.bounds scopes).headD {}).temporaries) :
    scopes.findSome? (fun scope => scope.temporaries.get? name) = none := by
  induction scopes with
  | nil => rfl
  | cons scope outer ih =>
    simp only [Scope.bounds, List.headD_cons, Scope.bound, Bound.mem_add, not_or] at h
    simp only [List.findSome?_cons, Table.get?_eq_none _ _ h.1]
    exact ih h.2

theorem findSome?_aliases (name : String) (scopes : List Scope)
    (h : name ∉ ((Scope.bounds scopes).headD {}).aliases) :
    scopes.findSome? (fun scope => scope.aliases.get? name) = none := by
  induction scopes with
  | nil => rfl
  | cons scope outer ih =>
    simp only [Scope.bounds, List.headD_cons, Scope.bound, Bound.mem_add, not_or] at h
    simp only [List.findSome?_cons, Table.get?_eq_none _ _ h.1]
    exact ih h.2

theorem temporary?_eq (e : Enclosing) (name : String) :
    e.temporary? name = e.scopes.findSome? fun scope => scope.temporaries.get? name := by
  unfold temporary?
  split
  · rfl
  · next h =>
    rw [bound, e.bounds_eq] at h
    exact (findSome?_temporaries name e.scopes h).symm

theorem alias?_eq (e : Enclosing) (name : String) :
    e.alias? name = e.scopes.findSome? fun scope => scope.aliases.get? name := by
  unfold alias?
  split
  · rfl
  · next h =>
    rw [bound, e.bounds_eq] at h
    exact (findSome?_aliases name e.scopes h).symm

end Enclosing

end Skein
