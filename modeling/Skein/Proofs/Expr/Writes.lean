import Skein.Expr.Sandbox
import Skein.Proofs.Expr.Aliases
import Skein.Proofs.Outcome

set_option autoImplicit false

/-!
# Expr: what a write changes

A read and a write look for a variable on ways of their own: both follow the aliases first, and
then the one asks for a value where the other asks for a place.  The two agree.  A write lands
in the innermost temporary of the name that was followed, or in the global, and that is where
every name that stands for the same name is read; all other names are read as before, and
every name stands for what it stood for.
-/

namespace Skein

/-! ## Writing into scopes -/

theorem Scope.temporaries_of_write? {scope scope' : Scope} {name : String} {value : Value}
    (h : scope.write? name value = some scope') :
    scope' = { scope with temporaries := scope.temporaries.insert name value } := by
  unfold write? at h
  split at h
  · exact (Option.some.inj h).symm
  · cases h

/-- A write into some scopes is read under its name, and other names are read as before. -/
theorem Enclosing.findSome?_writeIn? {name : String} {value : Value} {scopes scopes' : List Scope}
    (h : writeIn? name value scopes = some scopes') (other : String) :
    scopes'.findSome? (fun scope => scope.temporaries.get? other) =
      if name = other then some value
      else scopes.findSome? (fun scope => scope.temporaries.get? other) := by
  induction scopes generalizing scopes' with
  | nil => cases h
  | cons scope outer ih =>
      unfold writeIn? at h
      split at h
      · next written hwrite =>
          cases h
          rw [Scope.temporaries_of_write? hwrite, List.findSome?_cons, List.findSome?_cons,
            Table.get?_insert]
          by_cases hname : name = other
          · simp [hname]
          · simp [hname]
      · next hwrite =>
          obtain ⟨outer', houter, rfl⟩ := Option.map_eq_some_iff.mp h
          rw [List.findSome?_cons, List.findSome?_cons, ih houter]
          by_cases hname : name = other
          · subst hname
            simp [Scope.write?_eq_none.mp hwrite]
          · simp [hname]

/-- Which names are aliases in some scopes depends on their aliases only. -/
theorem Scope.bounds_aliases_congr {scopes scopes' : List Scope}
    (h : scopes'.map (·.aliases) = scopes.map (·.aliases)) :
    ((bounds scopes').headD {}).aliases = ((bounds scopes).headD {}).aliases := by
  induction scopes generalizing scopes' with
  | nil => rw [List.map_eq_nil_iff.mp h]
  | cons scope outer ih =>
      obtain ⟨scope', outer', rfl, hscope, houter⟩ := List.map_eq_cons_iff.mp h
      simp only [bounds, List.headD_cons, bound]
      rw [ih houter, hscope]

/-! ## Writing for a host -/

namespace Host

variable {σ ε : Type} (host : Host σ ε) {state : σ} {name : String} {value : Value}

theorem setVariable_of_ok {t : Store} (h : (host.store state).set name value = .ok t) :
    host.setVariable name value state = .ok () (host.withStore state t) := by
  have hget : host.getStore state = .ok (host.store state) state := rfl
  rw [setVariable, Outcome.run_of_eq_ok hget, h]
  rfl

theorem setVariable_of_error {fault : ExprFault}
    (h : (host.store state).set name value = .error fault) :
    host.setVariable name value state = .error (host.fault fault) state := by
  have hget : host.getStore state = .ok (host.store state) state := rfl
  rw [setVariable, Outcome.run_of_eq_ok hget, h]
  rfl

end Host

namespace Store

/-! ## Names stand for what they stood for -/

theorem follow_congr {s t : Store} (h : ∀ name, t.alias? name = s.alias? name)
    (passed : List String) (bound : Nat) (name : String) :
    t.follow passed bound name = s.follow passed bound name := by
  induction bound generalizing passed name with
  | zero => rfl
  | succ bound ih =>
      rw [follow, follow, h name]
      cases s.alias? name with
      | none => rfl
      | some target =>
          dsimp only
          rw [ih]

/-- What a name stands for depends on the aliases of the scopes only. -/
theorem canonical_congr {s t : Store} (h : t.tables = s.tables) (name : String) :
    t.canonical name = s.canonical name := by
  have halias (other : String) : t.alias? other = s.alias? other := by
    rw [alias?_eq, alias?_eq, h]
  have haliases : t.aliases = s.aliases := by
    rw [tables_eq, tables_eq] at h
    obtain ⟨hscope, houter⟩ := List.cons.inj h
    have hbound := Scope.bounds_aliases_congr houter
    rw [aliases, aliases, Enclosing.bound, Enclosing.bound, t.enclosing.bounds_eq,
      s.enclosing.bounds_eq, hscope, hbound]
  rw [canonical, canonical, haliases, follow_congr halias]

/-! ## Where a write lands -/

/-- A write of a name that nothing leads on from: it lands in a temporary, and nothing else
changes, or there is no temporary of that name and it lands in the global. -/
inductive Lands (s : Store) (name : String) (value : Value) : Store → Prop where
  | temporary {t : Store} : s.temporary? name ≠ none →
      t = { s with scope := t.scope, enclosing := t.enclosing } → t.shape = s.shape →
      (∀ other, t.temporary? other = if name = other then some value else s.temporary? other) →
      Lands s name value t
  | global : s.temporary? name = none → Lands s name value (s.writeGlobal name value)

theorem isConstant_iff {s : Store} {name : String} :
    s.isConstant name = true ↔ s.constants.get? (s.canonical name) ≠ none := by
  rw [isConstant, Table.contains, Option.isSome_iff_ne_none]

theorem set_of_isConstant {s : Store} {name : String} (h : s.isConstant name = true)
    (value : Value) : s.set name value = .error (.assignToConstant (s.canonical name)) := by
  unfold isConstant at h
  simp only [set, h, if_true]

theorem exists_set {s : Store} {name : String} (h : s.isConstant name = false) (value : Value) :
    ∃ t, s.set name value = .ok t := by
  unfold isConstant at h
  simp only [set, h, Bool.false_eq_true, if_false]
  split
  · exact ⟨_, rfl⟩
  · split
    · exact ⟨_, rfl⟩
    · exact ⟨_, rfl⟩

theorem lands_of_write? {s : Store} {name : String} {value : Value} {scope : Scope}
    (h : s.scope.write? name value = some scope)
    (hshape : ({ s with scope := scope } : Store).shape = s.shape) :
    s.Lands name value { s with scope := scope } := by
  have hhas : s.scope.temporaries.get? name ≠ none := by
    intro hnone
    rw [Scope.write?_eq_none.mpr hnone] at h
    cases h
  obtain ⟨old, hold⟩ := Option.ne_none_iff_exists'.mp hhas
  refine .temporary ?_ rfl hshape fun other => ?_
  · rw [temporary?, hold, Option.some_or]
    exact Option.some_ne_none old
  · rw [temporary?, temporary?, Scope.temporaries_of_write? h]
    simp only [Table.get?_insert]
    by_cases hother : name = other
    · simp [hother]
    · simp [hother]

theorem lands_of_enclosing_write? {s : Store} {name : String} {value : Value}
    {enclosing : Enclosing} (hinner : s.scope.temporaries.get? name = none)
    (h : s.enclosing.write? name value = some enclosing)
    (hshape : ({ s with enclosing := enclosing } : Store).shape = s.shape) :
    s.Lands name value { s with enclosing := enclosing } := by
  rw [Enclosing.write?_eq] at h
  obtain ⟨scopes, hwritten, rfl⟩ := Option.map_eq_some_iff.mp h
  refine .temporary ?_ rfl hshape fun other => ?_
  · rw [temporary?, hinner, Option.none_or, Enclosing.temporary?_eq]
    intro hnone
    rw [Enclosing.writeIn?_eq_none.mpr hnone] at hwritten
    cases hwritten
  · rw [temporary?, temporary?, Enclosing.temporary?_eq, Enclosing.temporary?_eq]
    simp only [Enclosing.ofList, Enclosing.findSome?_writeIn? hwritten]
    by_cases hother : name = other
    · subst hother
      simp [hinner]
    · simp [hother]

/-- A write fails for a constant only, and else it lands somewhere. -/
theorem lands_of_set {s t : Store} {name : String} {value : Value}
    (h : s.set name value = .ok t) :
    s.isConstant name = false ∧ s.Lands (s.canonical name) value t := by
  have hshape := shape_of_set h
  refine ⟨?_, ?_⟩
  · cases hconstant : s.isConstant name with
    | false => rfl
    | true =>
        rw [set_of_isConstant hconstant] at h
        cases h
  · simp only [set] at h
    generalize s.canonical name = known at h ⊢
    split at h
    · cases h
    · split at h
      · next scope hwrite =>
          cases h
          exact lands_of_write? hwrite hshape
      · next hscope =>
          have hinner := Scope.write?_eq_none.mp hscope
          split at h
          · next enclosing hwrite =>
              cases h
              exact lands_of_enclosing_write? hinner hwrite hshape
          · next hwrite =>
              cases h
              refine .global ?_
              rw [Enclosing.write?_eq, Option.map_eq_none_iff, Enclosing.writeIn?_eq_none] at hwrite
              rw [temporary?, hinner, Option.none_or, Enclosing.temporary?_eq, hwrite]

theorem Lands.constants_eq {s t : Store} {name : String} {value : Value}
    (h : s.Lands name value t) : t.constants = s.constants := by
  cases h with
  | temporary _ ht _ _ => rw [ht]
  | global _ => rfl

theorem Lands.tables_eq {s t : Store} {name : String} {value : Value}
    (h : s.Lands name value t) : t.tables = s.tables := by
  cases h with
  | temporary _ _ hshape _ => rw [tables_eq_map_shape, tables_eq_map_shape, hshape]
  | global _ => rfl

/-- Only the name that was written is looked up otherwise than before. -/
theorem Lands.lookup_eq {s t : Store} {name : String} {value : Value} (h : s.Lands name value t)
    (hconstant : s.constants.get? name = none) (other : String) :
    t.lookup other = if name = other then some value else s.lookup other := by
  rw [lookup, lookup, h.constants_eq]
  cases h with
  | temporary _ ht _ htemporary =>
      have hglobals : t.globals = s.globals := by rw [ht]
      rw [htemporary, hglobals]
      by_cases hother : name = other
      · subst hother
        simp [hconstant]
      · simp [hother]
  | global hnone =>
      have htemporary : (s.writeGlobal name value).temporary? other = s.temporary? other := rfl
      have hglobals : (s.writeGlobal name value).globals = s.globals.insert name value := rfl
      rw [htemporary, hglobals, Table.get?_insert]
      by_cases hother : name = other
      · subst hother
        simp [hconstant, hnone]
      · simp [hother]

/-! ## Reading after a write -/

/-- Whatever the store, a write that succeeds is read under exactly the names that stand for the
name written; all other names are read as before, and every name stands for what it stood for.
A write fails exactly if the name stands for a constant, and then the host is left as it is, its
store and the notices in it included. -/
theorem get?_set (s : Store) (name : String) (value : Value) :
    (∀ t, s.set name value = .ok t →
      (∀ other, t.canonical other = s.canonical other) ∧
        ∀ other, t.get? other =
          if s.canonical other = s.canonical name then some value else s.get? other) ∧
      (∀ fault, s.set name value = .error fault ↔
        s.isConstant name = true ∧ fault = .assignToConstant (s.canonical name)) ∧
      ∀ {σ ε : Type} (host : Host σ ε) (state : σ), host.store state = s →
        (∀ t, s.set name value = .ok t →
          host.setVariable name value state = .ok () (host.withStore state t)) ∧
        ∀ fault, s.set name value = .error fault →
          host.setVariable name value state = .error (host.fault fault) state := by
  refine ⟨fun t hset => ?_, fun fault => ⟨fun hset => ?_, ?_⟩, fun host state hstore => ?_⟩
  · obtain ⟨hconstant, hlands⟩ := lands_of_set hset
    have hcanonical := canonical_congr hlands.tables_eq
    refine ⟨hcanonical, fun other => ?_⟩
    have hnone : s.constants.get? (s.canonical name) = none := by
      by_contra hsome
      rw [isConstant_iff.mpr hsome] at hconstant
      cases hconstant
    rw [get?, get?, hcanonical, hlands.lookup_eq hnone]
    simp only [eq_comm]
  · cases hconstant : s.isConstant name with
    | true =>
        rw [set_of_isConstant hconstant] at hset
        exact ⟨rfl, (Except.error.inj hset).symm⟩
    | false =>
        obtain ⟨t, ht⟩ := exists_set hconstant value
        rw [ht] at hset
        cases hset
  · rintro ⟨hconstant, rfl⟩
    exact set_of_isConstant hconstant value
  · subst hstore
    exact ⟨fun t => host.setVariable_of_ok, fun fault => host.setVariable_of_error⟩

/-- A global, a constant, a temporary around the innermost scope that hides the global, and
aliases of the temporary and of the constant. -/
def wounded : Store where
  globals := ⟨[("health", .int 5), ("coins", .int 2)]⟩
  constants := ⟨[("cap", .int 9)]⟩
  scope := { aliases := ⟨[("hp", "health")]⟩ }
  enclosing := .ofList
    [{ temporaries := ⟨[("health", .int 3)]⟩, aliases := ⟨[("limit", "cap")]⟩ }]

/-- A write under one alias is read under the name behind it and hides the global still; a write
under the other alias fails and leaves a sandbox as it is. -/
theorem get?_set_wounded :
    ∃ t, wounded.set "hp" (.int 7) = .ok t ∧ t.canonical "hp" = "health" ∧
      t.get? "health" = some (.int 7) ∧ t.get? "coins" = some (.int 2) ∧
      wounded.set "limit" (.int 7) = .error (.assignToConstant "cap") ∧
      ∀ sandbox : Sandbox, sandbox.store = wounded →
        Sandbox.host.setVariable "limit" (.int 7) sandbox =
          .error (.assignToConstant "cap") sandbox := by
  obtain ⟨hread, _, _⟩ := get?_set wounded "hp" (.int 7)
  obtain ⟨_, hfails, hhost⟩ := get?_set wounded "limit" (.int 7)
  have hfree : wounded.isConstant "hp" = false := by decide
  obtain ⟨t, hset⟩ := exists_set hfree (.int 7)
  obtain ⟨hcanonical, hget⟩ := hread t hset
  have hfault := (hfails (.assignToConstant "cap")).mpr ⟨by decide, by decide⟩
  refine ⟨t, hset, ?_, ?_, ?_, hfault, fun sandbox hsandbox => ?_⟩
  · rw [hcanonical]
    decide
  · rw [hget, if_pos (by decide)]
  · rw [hget, if_neg (by decide)]
    decide
  · exact (hhost Sandbox.host sandbox hsandbox).2 _ hfault

end Store

end Skein
