import Skein.Proofs.Expr.Writes

set_option autoImplicit false

/-!
# Expr: what a temporary hides

A temporary stands in front of everything else of its name, but for the aliases of outer scopes.  It
takes the place of an alias in its own scope only, and aliases are followed before temporaries are
looked for.  So where an outer scope makes its name stand for another one, that name is read, and
the temporary is not.

Whatever is declared in a scope goes with it.  What was done since a scope was entered has changed
the scopes inside it only, and when it is left the store is what it was.
-/

namespace Skein

/-- A write of a name that one of the inner scopes has as a temporary goes into the inner scopes. -/
theorem Enclosing.writeIn?_append {name : String} {value : Value} {inner outer scopes : List Scope}
    (hown : ∃ scope ∈ inner, scope.temporaries.get? name ≠ none)
    (h : writeIn? name value (inner ++ outer) = some scopes) :
    ∃ inner', inner' ≠ [] ∧ scopes = inner' ++ outer := by
  induction inner generalizing scopes with
  | nil =>
      obtain ⟨scope, hscope, _⟩ := hown
      cases hscope
  | cons first rest ih =>
      rw [List.cons_append, writeIn?] at h
      cases hwrite : first.write? name value with
      | some written =>
          rw [hwrite] at h
          exact ⟨written :: rest, List.cons_ne_nil _ _, (Option.some.inj h).symm⟩
      | none =>
          rw [hwrite] at h
          obtain ⟨rest', hrest, rfl⟩ := Option.map_eq_some_iff.mp h
          obtain ⟨scope, hscope, hhas⟩ := hown
          have howned : ∃ scope ∈ rest, scope.temporaries.get? name ≠ none := by
            rcases List.mem_cons.mp hscope with rfl | hscope
            · exact absurd (Scope.write?_eq_none.mp hwrite) hhas
            · exact ⟨scope, hscope, hhas⟩
          obtain ⟨inner', _, rfl⟩ := ih howned hrest
          exact ⟨first :: inner', List.cons_ne_nil _ _, rfl⟩

namespace Store

open Relation

/-! ## Declaring a temporary -/

/-- The scopes around the innermost one make the name stand for another one. -/
def OuterLeads (s : Store) (name target : String) : Prop :=
  s.enclosing.alias? name = some target ∧ target ≠ name

section Declared

variable {s : Store} {name : String}

theorem alias?_declareTemporary (s : Store) (name : String) (value : Value) (other : String) :
    (s.declareTemporary name value).alias? other =
      if name = other then s.enclosing.alias? other else s.alias? other := by
  unfold alias? declareTemporary
  dsimp only
  rw [Table.get?_erase]
  split
  next => rw [Option.none_or]
  next => rfl

theorem leads_declared_self (value : Value) {target : String} :
    (s.declareTemporary name value).Leads name target ↔ s.OuterLeads name target := by
  rw [Leads, alias?_declareTemporary, if_pos rfl, OuterLeads]

theorem leads_declared_other (value : Value) {other target : String} (hother : other ≠ name) :
    (s.declareTemporary name value).Leads other target ↔ s.Leads other target := by
  rw [Leads, alias?_declareTemporary, if_neg (Ne.symm hother), Leads]

theorem lookup_declared_self (s : Store) (name : String) (value : Value) :
    (s.declareTemporary name value).lookup name =
      (s.constants.get? name).or (some value) := by
  unfold lookup temporary? declareTemporary
  dsimp only
  rw [Table.get?_insert, if_pos rfl, Option.some_or, Option.some_or]

theorem lookup_declared_other (value : Value) {other : String} (hother : other ≠ name) :
    (s.declareTemporary name value).lookup other = s.lookup other := by
  unfold lookup temporary? declareTemporary
  dsimp only
  rw [Table.get?_insert, if_neg (Ne.symm hother)]

/-- Where no outer scope makes the name stand for another one, the temporary itself is read. -/
theorem get?_declared_of_free (h : s.Unlooped) (hfree : ∀ target, ¬s.OuterLeads name target)
    (value : Value) :
    (s.declareTemporary name value).get? name = (s.constants.get? name).or (some value) := by
  have hend : ∀ target, ¬(s.declareTemporary name value).Leads name target := by
    intro target hleads
    exact hfree target ((leads_declared_self value).mp hleads)
  rw [get?, (h.declareTemporary name value).canonical_eq .refl hend, lookup_declared_self]

/-- The way on from where an outer scope leads never comes back to the name, so the temporary does
not change it. -/
theorem get?_declared_of_outer (h : s.Unlooped) {target : String}
    (houter : s.OuterLeads name target) (value : Value) :
    (s.declareTemporary name value).get? name = s.get? target := by
  have hdeclared := h.declareTemporary name value
  have hleads := (leads_declared_self value).mpr houter
  obtain ⟨hway, hend⟩ := hdeclared.canonical_end target
  have haway {other : String}
      (hother : ReflTransGen (s.declareTemporary name value).Leads target other) :
      other ≠ name := by
    rintro rfl
    exact hdeclared.not_leads_loop _ (.head' hleads hother)
  have hsame {other : String}
      (hother : ReflTransGen (s.declareTemporary name value).Leads target other) :
      ReflTransGen s.Leads target other := by
    induction hother with
    | refl => exact .refl
    | tail hbefore hstep ih =>
        exact ih.tail ((leads_declared_other value (haway hbefore)).mp hstep)
  have hstop : ∀ next, ¬s.Leads ((s.declareTemporary name value).canonical target) next := by
    intro next hnext
    exact hend next ((leads_declared_other value (haway hway)).mpr hnext)
  rw [get?, get?, hdeclared.canonical_of_way (.single hleads), h.canonical_eq (hsame hway) hstop,
    lookup_declared_other value (haway hway)]

/-- Every value that is declared can be read, exactly if the name is no constant and no outer scope
makes it stand for another one. -/
theorem forall_get?_declared_iff (h : s.Unlooped) :
    (∀ value, (s.declareTemporary name value).get? name = some value) ↔
      s.constants.get? name = none ∧ ∀ target, ¬s.OuterLeads name target := by
  constructor
  · intro hread
    have hfree : ∀ target, ¬s.OuterLeads name target := by
      intro target houter
      have htrue := hread (.bool true)
      rw [get?_declared_of_outer h houter, ← get?_declared_of_outer h houter (.bool false),
        hread] at htrue
      cases htrue
    refine ⟨?_, hfree⟩
    cases hconstant : s.constants.get? name with
    | none => rfl
    | some constant =>
        have htrue := hread (.bool true)
        have hfalse := hread (.bool false)
        rw [get?_declared_of_free h hfree, hconstant, Option.some_or] at htrue hfalse
        cases htrue.symm.trans hfalse
  · rintro ⟨hconstant, hfree⟩ value
    rw [get?_declared_of_free h hfree, hconstant, Option.none_or]

end Declared

/-! ## Leaving a scope -/

theorem withScopes_scopes (s : Store) : s.withScopes s.scopes = s := by
  have houter : Enclosing.ofList s.enclosing.scopes = s.enclosing := Enclosing.eq_of_scopes rfl
  rw [scopes, withScopes, houter]

theorem withScopes_withScopes (s : Store) (scopes scopes' : List Scope) :
    (s.withScopes scopes).withScopes scopes' = s.withScopes scopes' := by
  cases scopes <;> cases scopes' <;> rfl

theorem pushScope_eq (s : Store) : s.pushScope = s.withScopes ({} :: s.scopes) := by
  have houter : s.enclosing.push s.scope = Enclosing.ofList s.scopes := Enclosing.eq_of_scopes rfl
  rw [pushScope, houter, withScopes]

theorem popScope_withScopes (s : Store) (inner : Scope) {outer : List Scope} (h : outer ≠ []) :
    (s.withScopes (inner :: outer)).popScope = s.withScopes outer := by
  cases outer with
  | nil => exact absurd rfl h
  | cons scope outer => exact popScope_eq rfl

/-- A write that finds a temporary changes the scopes and nothing else. -/
theorem set_of_writeIn? {s t : Store} {name : String} {value : Value} {scopes : List Scope}
    (hset : s.set name value = .ok t)
    (hwrite : Enclosing.writeIn? (s.canonical name) value s.scopes = some scopes) :
    t = s.withScopes scopes := by
  rw [Store.scopes, Enclosing.writeIn?] at hwrite
  simp only [set] at hset
  split at hset
  · cases hset
  · cases hscope : s.scope.write? (s.canonical name) value with
    | some written =>
        rw [hscope] at hset hwrite
        have houter : Enclosing.ofList s.enclosing.scopes = s.enclosing :=
          Enclosing.eq_of_scopes rfl
        cases hset
        rw [← Option.some.inj hwrite, withScopes, houter]
    | none =>
        rw [hscope] at hset hwrite
        dsimp only at hset hwrite
        obtain ⟨outer, houter, rfl⟩ := Option.map_eq_some_iff.mp hwrite
        rw [Enclosing.write?_eq, houter] at hset
        cases hset
        rfl

/-- A write of a variable that one of the inner scopes has as a temporary leaves the outer scopes,
and all else, as they are. -/
theorem set_inner {s u : Store} {first : Scope} {inner : List Scope} {name : String} {value : Value}
    (hown : ∃ scope ∈ first :: inner, scope.temporaries.get?
      ((s.withScopes (first :: (inner ++ s.scopes))).canonical name) ≠ none)
    (hset : (s.withScopes (first :: (inner ++ s.scopes))).set name value = .ok u) :
    ∃ first' inner', u = s.withScopes (first' :: (inner' ++ s.scopes)) := by
  have hscopes : (s.withScopes (first :: (inner ++ s.scopes))).scopes =
      (first :: inner) ++ s.scopes := rfl
  cases hwrite : Enclosing.writeIn?
      ((s.withScopes (first :: (inner ++ s.scopes))).canonical name) value
      (s.withScopes (first :: (inner ++ s.scopes))).scopes with
  | none =>
      obtain ⟨scope, hscope, hhas⟩ := hown
      rw [Enclosing.writeIn?_eq_none, hscopes, List.findSome?_eq_none_iff] at hwrite
      exact absurd (hwrite scope (List.mem_append_left _ hscope)) hhas
  | some scopes =>
      have hwritten := set_of_writeIn? hset hwrite
      rw [hscopes] at hwrite
      obtain ⟨inner', hsome, rfl⟩ := Enclosing.writeIn?_append hown hwrite
      obtain ⟨first', rest, rfl⟩ := List.exists_cons_of_ne_nil hsome
      exact ⟨first', rest, hwritten.trans (withScopes_withScopes _ _ _)⟩

/-- What a store comes to between entering a scope and leaving it, if nothing that was there before
is written: temporaries and aliases are declared, inner scopes are entered and left, and variables
are written that one of the scopes entered since has as temporaries. -/
inductive Within (s : Store) : Store → Prop
  | enter : Within s s.pushScope
  | pushScope {t : Store} (h : Within s t) : Within s t.pushScope
  | popScope {t : Store} (h : Within s t) (hinner : s.depth + 1 < t.depth) : Within s t.popScope
  | resetScope {t : Store} (h : Within s t) : Within s t.resetScope
  | declareTemporary {t : Store} (h : Within s t) (name : String) (value : Value) :
      Within s (t.declareTemporary name value)
  | addAlias {t : Store} (h : Within s t) (name target : String) : Within s (t.addAlias name target)
  | set {t u : Store} (h : Within s t) {name : String} {value : Value}
      (hown : ∃ scope ∈ t.scopes.take (t.depth - s.depth),
        scope.temporaries.get? (t.canonical name) ≠ none)
      (hset : t.set name value = .ok u) : Within s u

/-- Inside a scope that was entered, the scopes from before are as they were, and so is all else. -/
theorem Within.exists_inner {s t : Store} (h : Within s t) :
    ∃ first inner, t = s.withScopes (first :: (inner ++ s.scopes)) := by
  induction h with
  | enter => exact ⟨{}, [], pushScope_eq s⟩
  | pushScope _ ih =>
      obtain ⟨first, inner, rfl⟩ := ih
      exact ⟨{}, first :: inner, (pushScope_eq _).trans (withScopes_withScopes _ _ _)⟩
  | popScope _ hinner ih =>
      obtain ⟨first, inner, rfl⟩ := ih
      cases inner with
      | nil => exact absurd hinner (Nat.lt_irrefl _)
      | cons second inner =>
          exact ⟨second, inner, popScope_withScopes s first (List.cons_ne_nil _ _)⟩
  | resetScope _ ih =>
      obtain ⟨first, inner, rfl⟩ := ih
      exact ⟨_, inner, rfl⟩
  | declareTemporary _ name value ih =>
      obtain ⟨first, inner, rfl⟩ := ih
      exact ⟨_, inner, rfl⟩
  | addAlias _ name target ih =>
      obtain ⟨first, inner, rfl⟩ := ih
      exact ⟨_, inner, rfl⟩
  | @set t u _ name value hown hset ih =>
      obtain ⟨first, inner, rfl⟩ := ih
      have hscopes : (s.withScopes (first :: (inner ++ s.scopes))).scopes =
          (first :: inner) ++ s.scopes := rfl
      have hdepth : (s.withScopes (first :: (inner ++ s.scopes))).depth - s.depth =
          (first :: inner).length := by
        rw [depth, hscopes, List.length_append, depth, Nat.add_sub_cancel]
      rw [hdepth, hscopes, List.take_left] at hown
      exact set_inner hown hset

/-- When the scope is left, the store is what it was when the scope was entered. -/
theorem Within.popScope_eq {s t : Store} (h : Within s t) (hdepth : t.depth = s.depth + 1) :
    t.popScope = s := by
  obtain ⟨first, inner, rfl⟩ := h.exists_inner
  have hscopes : s.scopes ≠ [] := List.cons_ne_nil _ _
  have hlength : (first :: (inner ++ s.scopes)).length = s.scopes.length + 1 := hdepth
  obtain rfl : inner = [] := by
    rw [List.length_cons, List.length_append] at hlength
    exact List.eq_nil_of_length_eq_zero (by omega)
  rw [List.nil_append, popScope_withScopes s first hscopes, withScopes_scopes]

/-- In every store that there can be, a temporary hides whatever else has its name, constants and
the aliases of outer scopes apart.  Those aliases are followed as if there were no temporary.
When a scope is left, all that was declared in it is gone and everything reads as before. -/
theorem shadowing_of_reached {past : List (List Scope)} {s : Store} (h : Reached past s)
    (name : String) :
    ((∀ value, (s.declareTemporary name value).get? name = some value) ↔
        s.constants.get? name = none ∧ ∀ target, ¬s.OuterLeads name target) ∧
      (∀ target, s.OuterLeads name target →
        ∀ value, (s.declareTemporary name value).get? name = s.get? target) ∧
      ∀ t, Within s t → t.depth = s.depth + 1 → t.popScope = s := by
  have hunlooped := h.unlooped.1
  refine ⟨forall_get?_declared_iff hunlooped, ?_, ?_⟩
  · intro target houter value
    exact get?_declared_of_outer hunlooped houter value
  · intro t ht hdepth
    exact ht.popScope_eq hdepth

/-- A scope that makes `x` stand for the global `y`, and an empty scope inside it. -/
def aliasedOutside : Store :=
  (({ globals := ⟨[("y", .int 1)]⟩ } : Store).pushScope.addAlias "x" "y").pushScope

theorem reached_aliasedOutside : ∃ past, Reached past aliasedOutside :=
  ⟨_, (((Reached.new.after (.defineGlobal "y" (.int 1))).after .pushScope).after
    (.addAlias "x" "y")).after .pushScope⟩

/-- A temporary `n` is read whatever it is, and a temporary `x` never is.  Declared in a further
scope, written through an alias and left, `n` leaves nothing behind. -/
theorem shadowing_of_aliasedOutside :
    ∃ past, Reached past aliasedOutside ∧
      (∀ value, (aliasedOutside.declareTemporary "n" value).get? "n" = some value) ∧
      (∀ value, (aliasedOutside.declareTemporary "x" value).get? "x" = some (.int 1)) ∧
      ∃ t, Within aliasedOutside t ∧ t.get? "n" = some (.int 6) ∧ t.popScope = aliasedOutside := by
  obtain ⟨past, hreached⟩ := reached_aliasedOutside
  obtain ⟨hread, _, hleft⟩ := shadowing_of_reached hreached "n"
  obtain ⟨_, hhidden, _⟩ := shadowing_of_reached hreached "x"
  have hfree : ∀ target, ¬aliasedOutside.OuterLeads "n" target := by
    intro target houter
    have hnone : aliasedOutside.enclosing.alias? "n" = none := by decide
    rw [OuterLeads, hnone] at houter
    cases houter.1
  have hdeclared := (Within.enter (s := aliasedOutside)).declareTemporary "n" (.int 5)
  have halias := hdeclared.addAlias "z" "n"
  obtain ⟨t, hset, hdepth, hget⟩ : ∃ t,
      ((aliasedOutside.pushScope.declareTemporary "n" (.int 5)).addAlias "z" "n").set "z" (.int 6) =
        .ok t ∧ t.depth = aliasedOutside.depth + 1 ∧ t.get? "n" = some (.int 6) :=
    ⟨_, rfl, rfl, by decide⟩
  have hwithin := halias.set ⟨_, List.mem_cons_self, by decide⟩ hset
  have hy : aliasedOutside.get? "y" = some (.int 1) := by decide
  refine ⟨past, hreached, hread.mpr ⟨by decide, hfree⟩, ?_, t, hwithin, hget,
    hleft t hwithin hdepth⟩
  intro value
  exact (hhidden "y" ⟨by decide, by decide⟩ value).trans hy

/-- Not every temporary can be read: in front of a temporary `x` stands the outer alias. -/
theorem aliasedOutside_hides_temporary :
    ∃ past, Reached past aliasedOutside ∧ aliasedOutside.constants.get? "x" = none ∧
      (aliasedOutside.declareTemporary "x" (.int 5)).get? "x" ≠ some (.int 5) := by
  obtain ⟨past, hreached⟩ := reached_aliasedOutside
  exact ⟨past, hreached, by decide, by decide⟩

end Store

end Skein
