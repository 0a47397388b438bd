set_option autoImplicit false

/-!
# Tables

A table from keys to values, kept in the order in which the keys were first entered.
-/

namespace Skein

/-- A table: keys with their values, oldest key first. -/
structure Table (κ α : Type) where
  entries : List (κ × α)
  deriving DecidableEq, Repr

namespace Table

variable {κ α : Type} [DecidableEq κ]

instance : Inhabited (Table κ α) := ⟨⟨[]⟩⟩

instance : EmptyCollection (Table κ α) := ⟨⟨[]⟩⟩

/-- The value of a key in a list of entries. -/
def find? (key : κ) : List (κ × α) → Option α
  | [] => none
  | (k, a) :: rest => if k = key then some a else find? key rest

/-- Gives the key a value, in its old place or else at the end. -/
def put (key : κ) (value : α) : List (κ × α) → List (κ × α)
  | [] => [(key, value)]
  | (k, a) :: rest => if k = key then (k, value) :: rest else (k, a) :: put key value rest

/-- The value of a key. -/
def get? (t : Table κ α) (key : κ) : Option α := find? key t.entries

/-- Whether a key has a value. -/
def contains (t : Table κ α) (key : κ) : Bool := (t.get? key).isSome

/-- The table in which the key has the value. -/
def insert (t : Table κ α) (key : κ) (value : α) : Table κ α := ⟨put key value t.entries⟩

/-- The table without the key. -/
def erase (t : Table κ α) (key : κ) : Table κ α :=
  ⟨t.entries.filter fun entry => entry.1 ≠ key⟩

/-- The table with every value changed. -/
def mapValues {β : Type} (f : α → β) (t : Table κ α) : Table κ β :=
  ⟨t.entries.map fun entry => (entry.1, f entry.2)⟩

/-- The keys, oldest first. -/
def keys (t : Table κ α) : List κ := t.entries.map (·.1)

/-- The number of keys. -/
def size (t : Table κ α) : Nat := t.entries.length

/-! ## What each operation does to a look-up -/

@[simp] theorem get?_empty (key : κ) : (∅ : Table κ α).get? key = none := rfl

theorem find?_put (key other : κ) (value : α) (entries : List (κ × α)) :
    find? other (put key value entries) =
      if key = other then some value else find? other entries := by
  induction entries with
  | nil => simp [put, find?]
  | cons entry rest ih =>
    obtain ⟨k, a⟩ := entry
    by_cases hk : k = key
    · subst hk
      by_cases ho : k = other <;> simp [put, find?, ho]
    · by_cases ho : k = other
      · subst ho
        simp [put, find?, hk, Ne.symm hk]
      · simp [put, find?, hk, ho, ih]

@[simp] theorem get?_insert (t : Table κ α) (key other : κ) (value : α) :
    (t.insert key value).get? other = if key = other then some value else t.get? other :=
  find?_put key other value t.entries

theorem find?_filter (key other : κ) (entries : List (κ × α)) :
    find? other (entries.filter fun entry => entry.1 ≠ key) =
      if key = other then none else find? other entries := by
  induction entries with
  | nil => simp [find?]
  | cons entry rest ih =>
    obtain ⟨k, a⟩ := entry
    by_cases hk : k = key
    · subst hk
      by_cases ho : k = other
      · simpa [find?, ho] using ih
      · simpa [find?, ho] using ih
    · by_cases ho : k = other
      · subst ho
        simp [find?, hk, Ne.symm hk]
      · simpa [find?, hk, ho] using ih

@[simp] theorem get?_erase (t : Table κ α) (key other : κ) :
    (t.erase key).get? other = if key = other then none else t.get? other :=
  find?_filter key other t.entries

theorem find?_map {β : Type} (f : α → β) (key : κ) (entries : List (κ × α)) :
    find? key (entries.map fun entry => (entry.1, f entry.2)) = (find? key entries).map f := by
  induction entries with
  | nil => rfl
  | cons entry rest ih =>
    obtain ⟨k, a⟩ := entry
    by_cases hk : k = key
    · simp [find?, hk]
    · simp [find?, hk, ih]

@[simp] theorem get?_mapValues {β : Type} (f : α → β) (t : Table κ α) (key : κ) :
    (t.mapValues f).get? key = (t.get? key).map f := find?_map f key t.entries

theorem get?_eq_none (t : Table κ α) (key : κ) (h : key ∉ t.keys) : t.get? key = none := by
  obtain ⟨entries⟩ := t
  induction entries with
  | nil => rfl
  | cons entry rest ih =>
    obtain ⟨k, a⟩ := entry
    simp only [keys, List.map_cons, List.mem_cons, not_or] at h
    simp only [get?, find?, Ne.symm h.1, if_false]
    exact ih h.2

end Table

end Skein
