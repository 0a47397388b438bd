import Skein.Expr.Store

set_option autoImplicit false

/-!
# Expr: what scopes bind

The shape of a scope is the names of its temporaries and its aliases.  A write changes values
only, so it leaves the shape of every scope; entering and leaving a scope adds and drops one
shape.
-/

namespace Skein

/-- What a scope binds: the names of its temporaries, and its aliases. -/
def Scope.shape (scope : Scope) : List String × Table String String :=
  (scope.temporaries.keys, scope.aliases)

theorem Table.keys_put {α : Type} (key : String) (value : α) (entries : List (String × α))
    (h : (find? key entries).isSome = true) :
    (put key value entries).map (·.1) = entries.map (·.1) := by
  induction entries with
  | nil => cases h
  | cons entry rest ih =>
      obtain ⟨k, a⟩ := entry
      by_cases hk : k = key
      · simp [put, hk]
      · simp only [find?, hk, if_false] at h
        simp [put, hk, ih h]

theorem Scope.shape_write? {scope scope' : Scope} {name : String} {value : Value}
    (h : scope.write? name value = some scope') : scope'.shape = scope.shape := by
  unfold write? at h
  split at h
  · next hcontains =>
      cases h
      simp only [shape, Table.keys, Table.insert]
      rw [Table.keys_put name value _ hcontains]
  · cases h

theorem Scope.write?_eq_none {scope : Scope} {name : String} {value : Value} :
    scope.write? name value = none ↔ scope.temporaries.get? name = none := by
  unfold write? Table.contains
  cases scope.temporaries.get? name with
  | none => simp
  | some old => simp

theorem Scope.get?_of_write? {scope scope' : Scope} {name : String} {value : Value}
    (h : scope.write? name value = some scope') :
    scope'.temporaries.get? name = some value := by
  unfold write? at h
  split at h
  · cases h
    simp
  · cases h

namespace Enclosing

theorem shape_writeIn? {name : String} {value : Value} {scopes scopes' : List Scope}
    (h : writeIn? name value scopes = some scopes') :
    scopes'.map Scope.shape = scopes.map Scope.shape := by
  induction scopes generalizing scopes' with
  | nil => cases h
  | cons scope outer ih =>
      unfold writeIn? at h
      split at h
      · next written hwrite =>
          cases h
          rw [List.map_cons, List.map_cons, Scope.shape_write? hwrite]
      · obtain ⟨outer', houter, rfl⟩ := Option.map_eq_some_iff.mp h
        rw [List.map_cons, List.map_cons, ih houter]

theorem shape_write? {e e' : Enclosing} {name : String} {value : Value}
    (h : e.write? name value = some e') : e'.scopes.map Scope.shape = e.scopes.map Scope.shape := by
  unfold write? at h
  split at h
  · obtain ⟨scopes, hscopes, rfl⟩ := Option.map_eq_some_iff.mp h
    exact shape_writeIn? hscopes
  · cases h

theorem pop?_eq_some {e : Enclosing} (h : e.scopes ≠ []) :
    ∃ scope outer, e.pop? = some (scope, outer) ∧ e.scopes = scope :: outer.scopes := by
  unfold pop?
  split
  · next hnil => exact absurd hnil h
  · next scope outer hcons => exact ⟨scope, _, rfl, hcons⟩

/-- What the scopes bind follows from the scopes. -/
theorem eq_of_scopes {e e' : Enclosing} (h : e.scopes = e'.scopes) : e = e' := by
  obtain ⟨scopes, bounds, hbounds⟩ := e
  obtain ⟨scopes', bounds', hbounds'⟩ := e'
  obtain rfl : scopes = scopes' := h
  obtain rfl : bounds = bounds' := hbounds.trans hbounds'.symm
  rfl

theorem scopes_of_pop? {e outer : Enclosing} {scope : Scope} (h : e.pop? = some (scope, outer)) :
    e.scopes = scope :: outer.scopes := by
  have hscopes : e.scopes ≠ [] := by
    intro hnil
    unfold pop? at h
    split at h
    · cases h
    · next hcons =>
        rw [hnil] at hcons
        cases hcons
  obtain ⟨scope', outer', hpop, hcons⟩ := pop?_eq_some hscopes
  obtain ⟨rfl, rfl⟩ := Prod.mk.inj (Option.some.inj (hpop.symm.trans h))
  exact hcons

theorem alias?_push (e : Enclosing) (scope : Scope) (name : String) :
    (e.push scope).alias? name = (scope.aliases.get? name).or (e.alias? name) := by
  rw [alias?_eq, alias?_eq, push, List.findSome?_cons]
  cases scope.aliases.get? name with
  | none => rfl
  | some target => rfl

theorem temporary?_push (e : Enclosing) (scope : Scope) (name : String) :
    (e.push scope).temporary? name = (scope.temporaries.get? name).or (e.temporary? name) := by
  rw [temporary?_eq, temporary?_eq, push, List.findSome?_cons]
  cases scope.temporaries.get? name with
  | none => rfl
  | some value => rfl

/-! ## Writing finds what there is -/

/-- Nothing can be written exactly where there is nothing to read. -/
theorem writeIn?_eq_none {name : String} {value : Value} {scopes : List Scope} :
    writeIn? name value scopes = none ↔
      scopes.findSome? (fun scope => scope.temporaries.get? name) = none := by
  induction scopes with
  | nil => simp [writeIn?]
  | cons scope outer ih =>
      rw [writeIn?, List.findSome?_cons, Scope.write?, Table.contains]
      cases scope.temporaries.get? name with
      | none => simpa using ih
      | some old => simp

theorem write?_eq (e : Enclosing) (name : String) (value : Value) :
    e.write? name value = (writeIn? name value e.scopes).map ofList := by
  unfold write?
  split
  · rfl
  · next hnot =>
      rw [bound, e.bounds_eq] at hnot
      rw [writeIn?_eq_none.mpr (findSome?_temporaries name e.scopes hnot), Option.map_none]

theorem findSome?_of_writeIn? {name : String} {value : Value} {scopes scopes' : List Scope}
    (h : writeIn? name value scopes = some scopes') :
    scopes'.findSome? (fun scope => scope.temporaries.get? name) = some value := by
  induction scopes generalizing scopes' with
  | nil => cases h
  | cons scope outer ih =>
      unfold writeIn? at h
      split at h
      · next written hwrite =>
          cases h
          rw [List.findSome?_cons, Scope.get?_of_write? hwrite]
      · next hwrite =>
          obtain ⟨outer', houter, rfl⟩ := Option.map_eq_some_iff.mp h
          rw [List.findSome?_cons, Scope.write?_eq_none.mp hwrite]
          exact ih houter

end Enclosing

namespace Store

/-- What the scopes bind, innermost first. -/
def shape (s : Store) : List (List String × Table String String) := s.scopes.map Scope.shape

/-- What the scopes around the innermost one bind. -/
def outerShape (s : Store) : List (List String × Table String String) :=
  s.enclosing.scopes.map Scope.shape

theorem shape_eq (s : Store) : s.shape = s.scope.shape :: s.outerShape := rfl

theorem depth_eq (s : Store) : s.depth = s.outerShape.length + 1 := by
  simp [depth, scopes, outerShape]

theorem length_shape (s : Store) : s.shape.length = s.depth := by
  simp [shape, depth]

/-- A write changes the value of a temporary or of a global, and binds nothing. -/
theorem shape_of_set {s t : Store} {name : String} {value : Value}
    (h : s.set name value = .ok t) : t.shape = s.shape := by
  simp only [set] at h
  split at h
  · cases h
  · split at h
    · next scope hwrite =>
        cases h
        rw [shape_eq, shape_eq, Scope.shape_write? hwrite]
        rfl
    · split at h
      · next enclosing hwrite =>
          cases h
          rw [shape_eq, shape_eq, outerShape, outerShape, Enclosing.shape_write? hwrite]
      · cases h
        rfl

theorem outerShape_of_shape {s t : Store} (h : t.shape = s.shape) :
    t.outerShape = s.outerShape := by
  rw [shape_eq, shape_eq] at h
  exact (List.cons.inj h).2

theorem shape_popScope {s : Store} (h : s.outerShape ≠ []) : s.popScope.shape = s.outerShape := by
  have hscopes : s.enclosing.scopes ≠ [] := by simpa [outerShape] using h
  obtain ⟨scope, outer, hpop, hcons⟩ := Enclosing.pop?_eq_some hscopes
  rw [popScope, popScope?, hpop, outerShape, hcons]
  rfl

theorem popScope_eq {s : Store} {scope : Scope} {outer : Enclosing}
    (h : s.enclosing.scopes = scope :: outer.scopes) :
    s.popScope = { s with scope := scope, enclosing := outer } := by
  have hscopes : s.enclosing.scopes ≠ [] := by
    rw [h]
    exact List.cons_ne_nil _ _
  obtain ⟨scope', outer', hpop, hcons⟩ := Enclosing.pop?_eq_some hscopes
  obtain ⟨rfl, houter⟩ := List.cons.inj (hcons.symm.trans h)
  obtain rfl := Enclosing.eq_of_scopes houter
  rw [popScope, popScope?, hpop]
  rfl

@[simp] theorem depth_resetScope (s : Store) : s.resetScope.depth = s.depth := rfl

@[simp] theorem depth_pushScope (s : Store) : s.pushScope.depth = s.depth + 1 := rfl

/-- The outermost scope is never left. -/
theorem depth_popScope (s : Store) : s.popScope.depth = max 1 (s.depth - 1) := by
  by_cases houter : s.outerShape = []
  · have hscopes : s.enclosing.scopes = [] := by simpa [outerShape] using houter
    have hpop : s.enclosing.pop? = none := by
      unfold Enclosing.pop?
      split
      · rfl
      · next hcons =>
          rw [hscopes] at hcons
          cases hcons
    have hkept : s.popScope = s := by
      rw [popScope, popScope?, hpop]
      rfl
    rw [hkept, depth_eq, houter]
    rfl
  · have hpos := List.length_pos_iff.mpr houter
    rw [← length_shape, shape_popScope houter, depth_eq]
    omega

theorem depth_withScopes (s : Store) (scopes : List Scope) :
    (s.withScopes scopes).depth = max 1 scopes.length := by
  cases scopes with
  | nil => rfl
  | cons scope outer => simp [withScopes, depth, Store.scopes, Enclosing.ofList]

/-- A variable that has been written has the value. -/
theorem lookup_of_set {s t : Store} {name : String} {value : Value}
    (h : s.set name value = .ok t) : t.lookup (s.canonical name) = some value := by
  simp only [set] at h
  generalize s.canonical name = known at h ⊢
  split at h
  · cases h
  · next hconstant =>
      have hnone : s.constants.get? known = none := by
        simpa [Table.contains] using hconstant
      split at h
      · next scope hwrite =>
          cases h
          simp [lookup, temporary?, hnone, Scope.get?_of_write? hwrite]
      · next hscope =>
          have hinner := Scope.write?_eq_none.mp hscope
          split at h
          · next enclosing hwrite =>
              cases h
              rw [Enclosing.write?_eq] at hwrite
              obtain ⟨scopes, hwritten, rfl⟩ := Option.map_eq_some_iff.mp hwrite
              have houter := Enclosing.findSome?_of_writeIn? hwritten
              simp [lookup, temporary?, hnone, hinner, Enclosing.temporary?_eq,
                Enclosing.ofList, houter]
          · next hwrite =>
              cases h
              rw [Enclosing.write?_eq, Option.map_eq_none_iff, Enclosing.writeIn?_eq_none] at hwrite
              simp [lookup, temporary?, writeGlobal, hnone, hinner, Enclosing.temporary?_eq, hwrite]

end Store

end Skein
