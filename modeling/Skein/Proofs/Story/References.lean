import Skein.Proofs.Expr.Aliases
import Skein.Story.Flow.Divert

set_option autoImplicit false

/-!
# Story: reference parameters

A reference parameter is an alias, in the scope of the call, of the variable that was passed
for it.  The alias is made where the parameters before it are bound already, and it leads to
nothing but a name.  So another parameter can come in between: a reference parameter that has
the name of the variable, or of an alias that leads to it, and a value parameter that has the
name of the variable.

The main statement says exactly when that does not happen: `reference_parameters_iff`.
-/

namespace Skein

open Relation

namespace Store

/-! ## A scope inside all others -/

/-- The store with one more scope inside all others. -/
def withInner (s : Store) (scope : Scope) : Store := { s.pushScope with scope := scope }

theorem alias?_withInner (s : Store) (scope : Scope) (name : String) :
    (s.withInner scope).alias? name = (scope.aliases.get? name).or (s.alias? name) := by
  show (scope.aliases.get? name).or ((s.enclosing.push s.scope).alias? name) = _
  rw [Enclosing.alias?_push]
  rfl

theorem temporary?_withInner (s : Store) (scope : Scope) (name : String) :
    (s.withInner scope).temporary? name =
      (scope.temporaries.get? name).or (s.temporary? name) := by
  show (scope.temporaries.get? name).or ((s.enclosing.push s.scope).temporary? name) = _
  rw [Enclosing.temporary?_push]
  rfl

/-- Names that are no aliases in the inner scope lead where they led. -/
theorem leads_withInner {s : Store} {scope : Scope} {name target : String}
    (h : scope.aliases.get? name = none) :
    (s.withInner scope).Leads name target ↔ s.Leads name target := by
  rw [Leads, Leads, alias?_withInner, h, Option.none_or]

theorem way_of_get? {s : Store} {scope : Scope} {name target : String}
    (h : scope.aliases.get? name = some target) :
    ReflTransGen (s.withInner scope).Leads name target := by
  by_cases hself : target = name
  · rw [hself]
  · refine .single ⟨?_, hself⟩
    rw [alias?_withInner, h, Option.some_or]

/-- From an alias of the inner scope, the way keeps to that scope. -/
theorem inner_way {s : Store} {scope : Scope} (h : (s.withInner scope).Unlooped)
    {first last : String} (hfirst : scope.aliases.get? first ≠ none)
    (hway : ReflTransGen (s.withInner scope).Leads first last) :
    ReflTransGen (Aliasing.Leads scope.aliases) first last := by
  obtain ⟨hclears, _, _⟩ := Aliasing.unlooped_cons.mp h
  induction hway with
  | refl => exact .refl
  | tail _ hleads ih =>
      rcases Aliasing.leadsIn_cons.mp (leads_iff.mp hleads) with hinner | ⟨hnone, houter⟩
      · exact ih.tail hinner
      · rcases ih.cases_tail with rfl | ⟨_, _, hlast⟩
        · exact absurd hnone hfirst
        · exact absurd houter (Aliasing.not_leadsIn_of_clears hclears hlast.1 _)

/-! ## Standing for a variable -/

/-- In a store with one more scope, a name stands for what another name stands for without
that scope: for the same name, with the same value, and what is written to it is written to
the variable. -/
structure StandsFor (m : Store) (name : String) (s : Store) (origin : String) : Prop where
  canonical : m.canonical name = s.canonical origin
  read : m.get? name = s.get? origin
  write : ∀ value, (m.set name value).map popScope = s.set origin value

theorem lookup_withInner {s : Store} {scope : Scope} {name : String}
    (h : scope.temporaries.get? name = none ∨ s.constants.contains name = true) :
    (s.withInner scope).lookup name = s.lookup name := by
  have hconstants : (s.withInner scope).constants = s.constants := rfl
  have hglobals : (s.withInner scope).globals = s.globals := rfl
  rw [lookup, lookup, hconstants, hglobals, temporary?_withInner]
  rcases h with hnone | hconstant
  · rw [hnone, Option.none_or]
  · obtain ⟨value, hvalue⟩ := Option.isSome_iff_exists.mp hconstant
    rw [hvalue, Option.some_or, Option.some_or]

theorem popScope_withInner (s : Store) (scope : Scope) : (s.withInner scope).popScope = s :=
  popScope_eq rfl

/-- A write that passes the inner scope by is one of the store without it. -/
theorem map_popScope_set {s : Store} {scope : Scope} {name origin : String}
    (hname : (s.withInner scope).canonical name = s.canonical origin)
    (h : scope.temporaries.get? (s.canonical origin) = none ∨
      s.constants.contains (s.canonical origin) = true) (value : Value) :
    ((s.withInner scope).set name value).map popScope = s.set origin value := by
  simp only [set, hname]
  generalize s.canonical origin = known at h ⊢
  have hconstants : (s.withInner scope).constants = s.constants := rfl
  rw [hconstants]
  by_cases hconstant : s.constants.contains known = true
  · simp only [hconstant, if_true]
    rfl
  · have hinner : scope.write? known value = none :=
      Scope.write?_eq_none.mpr (h.resolve_right hconstant)
    have hscope : (s.withInner scope).scope = scope := rfl
    have houter : (s.withInner scope).enclosing.scopes = s.scope :: s.enclosing.scopes := rfl
    simp only [hconstant, hscope, hinner, Enclosing.write?_eq, houter, Enclosing.writeIn?]
    cases s.scope.write? known value with
    | some written => exact congrArg Except.ok (popScope_eq rfl)
    | none =>
        cases Enclosing.writeIn? known value s.enclosing.scopes with
        | some written => exact congrArg Except.ok (popScope_eq rfl)
        | none => exact congrArg Except.ok (popScope_eq rfl)

theorem standsFor_of_canonical {s : Store} {scope : Scope} {name origin : String}
    (hname : (s.withInner scope).canonical name = s.canonical origin)
    (h : scope.temporaries.get? (s.canonical origin) = none ∨
      s.constants.contains (s.canonical origin) = true) :
    (s.withInner scope).StandsFor name s origin where
  canonical := hname
  read := by
    rw [get?, get?, hname]
    exact lookup_withInner h
  write := map_popScope_set hname h

/-- A temporary of the inner scope takes writes that were meant for a variable of its name. -/
theorem StandsFor.not_temporary {s : Store} {scope : Scope} {name origin : String}
    (h : (s.withInner scope).StandsFor name s origin)
    (hconstant : s.constants.contains (s.canonical origin) ≠ true) :
    scope.temporaries.get? (s.canonical origin) = none := by
  by_contra htemporary
  have hkept (value : Value) : s.set origin value = .ok s := by
    rw [← h.write value]
    have hwrite : scope.write? (s.canonical origin) value ≠ none := by
      intro hnone
      exact htemporary (Scope.write?_eq_none.mp hnone)
    obtain ⟨written, hwritten⟩ := Option.ne_none_iff_exists'.mp hwrite
    have hconstants : (s.withInner scope).constants = s.constants := rfl
    have hscope : (s.withInner scope).scope = scope := rfl
    simp only [set, h.canonical, hconstants, hconstant, hscope, hwritten]
    exact congrArg Except.ok (popScope_withInner s written)
  have htrue := lookup_of_set (hkept (.bool true))
  have hfalse := lookup_of_set (hkept (.bool false))
  rw [htrue] at hfalse
  cases hfalse

/-! ## Binding parameters one after the other -/

/-- The scope of a call after some parameters have been bound: the reference parameters with
the variables that were passed for them, and the names of the value parameters. -/
inductive Bound (s : Store) : List (String × String) → List String → Scope → Prop where
  | nothing : Bound s [] [] {}
  | reference {references : List (String × String)} {values : List String} {scope : Scope}
      {name origin : String} :
      Bound s references values scope → name ∉ references.map (·.1) → name ∉ values →
        Bound s (references ++ [(name, origin)]) values
          ((s.withInner scope).addAlias name origin).scope
  | value {references : List (String × String)} {values : List String} {scope : Scope}
      {name : String} {value : Value} :
      Bound s references values scope → name ∉ references.map (·.1) →
        Bound s references (values ++ [name])
          ((s.withInner scope).declareTemporary name value).scope

namespace Bound

variable {s : Store} {references : List (String × String)} {values : List String} {scope : Scope}

theorem unlooped (h : s.Bound references values scope) (hs : s.Unlooped) :
    (s.withInner scope).Unlooped := by
  induction h with
  | nothing => exact hs.pushScope
  | reference _ _ _ ih => exact ih.addAlias _ _
  | value _ _ ih => exact ih.declareTemporary _ _

/-- The aliases of the scope are the reference parameters. -/
theorem alias_eq_none (h : s.Bound references values scope) (key : String) :
    scope.aliases.get? key = none ↔ key ∉ references.map (·.1) := by
  induction h with
  | nothing => simp
  | @reference _ _ _ name _ _ _ _ ih =>
      simp only [addAlias, withInner, Table.get?_insert, List.map_append, List.mem_append]
      by_cases hkey : name = key
      · simp [hkey]
      · simpa [hkey, Ne.symm hkey] using ih
  | @value _ _ _ name _ _ hfresh ih =>
      simp only [declareTemporary, withInner, Table.get?_erase]
      by_cases hkey : name = key
      · rw [← hkey]
        simpa using hfresh
      · simpa [hkey] using ih

/-- The temporaries of the scope are the value parameters. -/
theorem temporary_eq_none (h : s.Bound references values scope) (key : String) :
    scope.temporaries.get? key = none ↔ key ∉ values := by
  induction h with
  | nothing => simp
  | @reference _ _ _ name _ _ _ hfresh ih =>
      simp only [addAlias, withInner, Table.get?_erase]
      by_cases hkey : name = key
      · rw [← hkey]
        simpa using hfresh
      · simpa [hkey] using ih
  | @value _ _ _ name _ _ _ ih =>
      simp only [declareTemporary, withInner, Table.get?_insert, List.mem_append]
      by_cases hkey : name = key
      · simp [hkey]
      · simpa [hkey, Ne.symm hkey] using ih

/-- A parameter with a name of its own hides no alias of the parameters before it. -/
theorem ne_of_alias (h : s.Bound references values scope) {name key target : String}
    (hfresh : name ∉ references.map (·.1)) (hget : scope.aliases.get? key = some target) :
    name ≠ key := by
  rintro rfl
  rw [(h.alias_eq_none name).mpr hfresh] at hget
  cases hget

/-- When a reference parameter was bound, the scope had the parameters before it, whose
aliases are there still, and its own alias was made of what its variable stood for then. -/
theorem earlier (h : s.Bound references values scope) {place : Nat} {name origin : String}
    (hplace : references[place]? = some (name, origin)) :
    ∃ values' scope', s.Bound (references.take place) values' scope' ∧
      scope.aliases.get? name = some ((s.withInner scope').canonical origin) ∧
      ∀ key target, scope'.aliases.get? key = some target →
        scope.aliases.get? key = some target := by
  induction h with
  | nothing => cases hplace
  | @reference references values scope last passed hbound hfresh _ ih =>
      have hkeep (key target : String) (hget : scope.aliases.get? key = some target) :
          ((s.withInner scope).addAlias last passed).scope.aliases.get? key = some target := by
        simp only [addAlias, withInner, Table.get?_insert, hbound.ne_of_alias hfresh hget,
          if_false]
        exact hget
      rcases Nat.lt_or_ge place references.length with hlt | hge
      · rw [List.getElem?_append_left hlt] at hplace
        obtain ⟨values', scope', hbound', hget, hkeep'⟩ := ih hplace
        refine ⟨values', scope', ?_, hkeep _ _ hget, fun key target h => hkeep _ _ (hkeep' _ _ h)⟩
        rw [List.take_append_of_le_length (Nat.le_of_lt hlt)]
        exact hbound'
      · rw [List.getElem?_append_right hge, List.getElem?_singleton] at hplace
        split at hplace
        · next hfirst =>
            obtain ⟨rfl, rfl⟩ := Prod.mk.inj (Option.some.inj hplace)
            have hlength : place = references.length := by omega
            refine ⟨values, scope, ?_, ?_, hkeep⟩
            · rw [hlength, List.take_left]
              exact hbound
            · simp [addAlias]
        · cases hplace
  | @value references values scope last value hbound hfresh ih =>
      have hkeep (key target : String) (hget : scope.aliases.get? key = some target) :
          ((s.withInner scope).declareTemporary last value).scope.aliases.get? key =
            some target := by
        simp only [declareTemporary, withInner, Table.get?_erase, hbound.ne_of_alias hfresh hget,
          if_false]
        exact hget
      obtain ⟨values', scope', hbound', hget, hkeep'⟩ := ih hplace
      exact ⟨values', scope', hbound', hkeep _ _ hget,
        fun key target h => hkeep _ _ (hkeep' _ _ h)⟩

end Bound

/-! ## When parameters come in between -/

/-- The first of some names that the way from a name comes to. -/
def Meets (s : Store) (names : List String) (start name : String) : Prop :=
  name ∈ names ∧ ReflTransGen (fun here next => s.Leads here next ∧ here ∉ names) start name

/-- No reference parameter comes between another one and the variable that was passed for
it. -/
structure Untangled (s : Store) (references : List (String × String)) : Prop where
  /-- Where the way to a variable first comes to the name of an earlier reference parameter,
  that parameter was passed the same variable. -/
  way : ∀ place reference, references[place]? = some reference →
    ∀ other ∈ references.take place,
      s.Meets ((references.take place).map (·.1)) reference.2 other.1 →
        s.canonical other.2 = s.canonical reference.2
  /-- A reference parameter that has the name of a variable was passed that variable. -/
  goal : ∀ reference ∈ references, ∀ other ∈ references, other.1 = s.canonical reference.2 →
    s.canonical other.2 = s.canonical reference.2

/-- Nor does a value parameter come in between: one that has the name of a variable is hidden
by a constant of that name. -/
structure Unclouded (s : Store) (references : List (String × String)) (values : List String) :
    Prop extends Untangled s references where
  value : ∀ reference ∈ references, s.canonical reference.2 ∈ values →
    s.constants.contains (s.canonical reference.2) = true

theorem Untangled.init {s : Store} {references : List (String × String)}
    {last : String × String} (h : s.Untangled (references ++ [last])) : s.Untangled references where
  way := by
    intro place reference hplace other hother hmeets
    have hlt := (List.getElem?_eq_some_iff.mp hplace).1
    have htake : (references ++ [last]).take place = references.take place :=
      List.take_append_of_le_length (Nat.le_of_lt hlt)
    refine h.way place reference ?_ other ?_ ?_
    · rw [List.getElem?_append_left hlt]
      exact hplace
    · rw [htake]
      exact hother
    · rw [htake]
      exact hmeets
  goal := by
    intro reference hreference other hother
    exact h.goal reference (List.mem_append_left _ hreference) other
      (List.mem_append_left _ hother)

/-- A way comes to one of some names, or it passes them all by. -/
theorem meets_or_avoids {s : Store} (names : List String) {start last : String}
    (hway : ReflTransGen s.Leads start last) :
    (∃ name, s.Meets names start name) ∨
      ReflTransGen (fun here next => s.Leads here next ∧ here ∉ names) start last := by
  induction hway using ReflTransGen.head_induction_on with
  | refl => exact .inr .refl
  | @head here next hleads _ ih =>
      by_cases hhere : here ∈ names
      · exact .inl ⟨here, hhere, .refl⟩
      · rcases ih with ⟨name, hname, hway⟩ | hway
        · exact .inl ⟨name, hname, .head ⟨hleads, hhere⟩ hway⟩
        · exact .inr (.head ⟨hleads, hhere⟩ hway)

namespace Bound

variable {s : Store} {references : List (String × String)} {values : List String} {scope : Scope}

/-- A way that passes the reference parameters by is there in the call as well. -/
theorem way_of_avoids (h : s.Bound references values scope) {start last : String}
    (hway : ReflTransGen (fun here next => s.Leads here next ∧ here ∉ references.map (·.1))
      start last) : ReflTransGen (s.withInner scope).Leads start last := by
  refine ReflTransGen.mono ?_ _ _ hway
  rintro here next ⟨hleads, hhere⟩
  exact (leads_withInner ((h.alias_eq_none here).mpr hhere)).mpr hleads

/-- Nothing leads on from a variable in the call if reference parameters of its name were
passed it. -/
theorem not_leads_canonical (h : s.Bound references values scope) (hs : s.Unlooped)
    (hget : ∀ reference ∈ references,
      scope.aliases.get? reference.1 = some (s.canonical reference.2)) {origin : String}
    (hgoal : ∀ other ∈ references, other.1 = s.canonical origin →
      s.canonical other.2 = s.canonical origin) (next : String) :
    ¬(s.withInner scope).Leads (s.canonical origin) next := by
  intro hleads
  by_cases hname : s.canonical origin ∈ references.map (·.1)
  · obtain ⟨other, hother, hsame⟩ := List.mem_map.mp hname
    have hself := hget other hother
    rw [hsame, hgoal other hother hsame] at hself
    have hnext := hleads.1
    rw [alias?_withInner, hself, Option.some_or] at hnext
    exact hleads.2 (Option.some.inj hnext).symm
  · have hnone := (h.alias_eq_none (s.canonical origin)).mpr hname
    exact (hs.canonical_end origin).2 next ((leads_withInner hnone).mp hleads)

/-- What a variable stands for does not change with the parameters bound so far. -/
theorem canonical_origin (h : s.Bound references values scope) (hs : s.Unlooped)
    (hget : ∀ reference ∈ references,
      scope.aliases.get? reference.1 = some (s.canonical reference.2)) {origin : String}
    (hway : ∀ other ∈ references, s.Meets (references.map (·.1)) origin other.1 →
      s.canonical other.2 = s.canonical origin)
    (hgoal : ∀ other ∈ references, other.1 = s.canonical origin →
      s.canonical other.2 = s.canonical origin) :
    (s.withInner scope).canonical origin = s.canonical origin := by
  refine (h.unlooped hs).canonical_eq ?_ (h.not_leads_canonical hs hget hgoal)
  rcases meets_or_avoids (references.map (·.1)) (hs.canonical_end origin).1 with
    ⟨name, hmeets⟩ | havoids
  · obtain ⟨other, hother, rfl⟩ := List.mem_map.mp hmeets.1
    have harrive := way_of_get? (s := s) (hget other hother)
    rw [hway other hother hmeets] at harrive
    exact (h.way_of_avoids hmeets.2).trans harrive
  · exact h.way_of_avoids havoids

/-- Without entanglement every reference parameter is an alias of what its variable stands
for in the caller. -/
theorem get?_of_untangled (h : s.Bound references values scope) (hs : s.Unlooped)
    (hclear : s.Untangled references) :
    ∀ reference ∈ references, scope.aliases.get? reference.1 = some (s.canonical reference.2) := by
  induction h with
  | nothing => simp
  | @reference references values scope name origin hbound hfresh _ ih =>
      have hget := ih hclear.init
      have hlast : (name, origin) ∈ references ++ [(name, origin)] :=
        List.mem_append_right _ List.mem_cons_self
      have horigin : (s.withInner scope).canonical origin = s.canonical origin := by
        refine hbound.canonical_origin hs hget ?_ ?_
        · intro other hother hmeets
          refine hclear.way references.length (name, origin) (by simp) other ?_ ?_
          · rw [List.take_left]
            exact hother
          · rw [List.take_left]
            exact hmeets
        · intro other hother
          exact hclear.goal (name, origin) hlast other (List.mem_append_left _ hother)
      intro reference hreference
      simp only [addAlias, Table.get?_insert]
      rcases List.mem_append.mp hreference with hold | hnew
      · rw [if_neg (hbound.ne_of_alias hfresh (hget reference hold))]
        exact hget reference hold
      · rw [List.mem_singleton.mp hnew, if_pos rfl, horigin]
  | @value references values scope name value hbound hfresh ih =>
      intro reference hreference
      have hget := ih hclear reference hreference
      simp only [declareTemporary, Table.get?_erase]
      rw [if_neg (hbound.ne_of_alias hfresh hget)]
      exact hget

theorem canonical_of_untangled (h : s.Bound references values scope) (hs : s.Unlooped)
    (hclear : s.Untangled references) {reference : String × String}
    (hreference : reference ∈ references) :
    (s.withInner scope).canonical reference.1 = s.canonical reference.2 := by
  have hget := h.get?_of_untangled hs hclear
  refine (h.unlooped hs).canonical_eq (way_of_get? (hget reference hreference)) ?_
  exact h.not_leads_canonical hs hget (hclear.goal reference hreference)

/-- If all reference parameters stand for what their variables stand for, they are not
entangled. -/
theorem untangled_of_canonical (h : s.Bound references values scope) (hs : s.Unlooped)
    (hall : ∀ reference ∈ references,
      (s.withInner scope).canonical reference.1 = s.canonical reference.2) :
    s.Untangled references where
  way := by
    intro place reference hplace other hother hmeets
    obtain ⟨values', scope', hearlier, hget, hkeep⟩ := h.earlier hplace
    have hthen := hearlier.unlooped hs
    have hnow := h.unlooped hs
    -- What the variable stood for when it was bound is also on the way from the parameter met.
    have hsame : (s.withInner scope').canonical reference.2 =
        (s.withInner scope').canonical other.1 :=
      hthen.canonical_of_way (hearlier.way_of_avoids hmeets.2)
    have hinner : scope'.aliases.get? other.1 ≠ none := by
      rw [Ne, hearlier.alias_eq_none, not_not]
      exact hmeets.1
    have hway : ReflTransGen (s.withInner scope).Leads other.1
        ((s.withInner scope').canonical other.1) := by
      have hwithin := inner_way hthen hinner (hthen.canonical_end other.1).1
      refine ReflTransGen.mono ?_ _ _ hwithin
      rintro here next ⟨hleads, hne⟩
      refine ⟨?_, hne⟩
      rw [alias?_withInner, hkeep here next hleads, Option.some_or]
    have hmem : reference ∈ references := List.mem_of_getElem? hplace
    calc s.canonical other.2
        = (s.withInner scope).canonical other.1 := (hall other (List.mem_of_mem_take hother)).symm
      _ = (s.withInner scope).canonical ((s.withInner scope').canonical other.1) :=
          hnow.canonical_of_way hway
      _ = (s.withInner scope).canonical ((s.withInner scope').canonical reference.2) := by
          rw [hsame]
      _ = (s.withInner scope).canonical reference.1 :=
          (hnow.canonical_of_way (way_of_get? hget)).symm
      _ = s.canonical reference.2 := hall reference hmem
  goal := by
    intro reference hreference other hother hname
    have hnow := h.unlooped hs
    have hend := (hnow.canonical_end reference.1).2
    rw [hall reference hreference, ← hname] at hend
    calc s.canonical other.2
        = (s.withInner scope).canonical other.1 := (hall other hother).symm
      _ = other.1 := hnow.canonical_eq .refl hend
      _ = s.canonical reference.2 := hname

/-- Reference parameters stand for the variables that were passed for them exactly if no
parameter comes in between. -/
theorem standsFor_iff (h : s.Bound references values scope) (hs : s.Unlooped) :
    (∀ reference ∈ references, (s.withInner scope).StandsFor reference.1 s reference.2) ↔
      s.Unclouded references values := by
  constructor
  · intro hall
    refine ⟨h.untangled_of_canonical hs fun reference hmem => (hall reference hmem).canonical, ?_⟩
    intro reference hmem hvalue
    by_contra hconstant
    have hnone := (hall reference hmem).not_temporary hconstant
    exact (h.temporary_eq_none _).mp hnone hvalue
  · intro hclear reference hmem
    refine standsFor_of_canonical (h.canonical_of_untangled hs hclear.toUntangled hmem) ?_
    by_cases hvalue : s.canonical reference.2 ∈ values
    · exact .inr (hclear.value reference hmem hvalue)
    · exact .inl ((h.temporary_eq_none _).mpr hvalue)

end Bound

end Store

namespace Story

/-! ## Calls -/

/-- The reference parameters, each with the variable that was passed for it. -/
def references (parameters : List Parameter) (arguments : List Argument) :
    List (String × String) :=
  (parameters.zip arguments).filterMap fun (parameter, argument) =>
    if parameter.byRef then argument.origin.map (parameter.name, ·) else none

/-- The names of the value parameters. -/
def valueNames (parameters : List Parameter) : List String :=
  (parameters.filter (!·.byRef)).map (·.name)

section BindEach

variable {target : String} {parameter : Parameter} {parameters : List Parameter}
  {argument : Argument} {arguments : List Argument}

theorem bindEach_value (u : State) (h : parameter.byRef = false) :
    bindEach target (parameter :: parameters) (argument :: arguments) u =
      bindEach target parameters arguments
        { u with store := u.store.declareTemporary parameter.name argument.value } := by
  rw [bindEach, h]
  rfl

theorem bindEach_reference (u : State) {origin : String} (h : parameter.byRef = true)
    (horigin : argument.origin = some origin) :
    bindEach target (parameter :: parameters) (argument :: arguments) u =
      bindEach target parameters arguments
        { u with store := u.store.addAlias parameter.name origin } := by
  rw [bindEach, h, horigin]
  rfl

theorem bindEach_missing (u : State) (h : parameter.byRef = true)
    (horigin : argument.origin = none) :
    bindEach target (parameter :: parameters) (argument :: arguments) u =
      .error (.structural (.byRefArgument target parameter.name)) u := by
  rw [bindEach, h, horigin]
  rfl

/-- Where parameters have been bound, every reference parameter was passed a variable. -/
theorem origin_of_bindEach {u t : State}
    (hbind : bindEach target parameters arguments u = .ok () t) :
    ∀ parameter argument, (parameter, argument) ∈ parameters.zip arguments →
      parameter.byRef = true → ∃ origin, argument.origin = some origin := by
  induction parameters generalizing arguments u with
  | nil => simp
  | cons first parameters ih =>
      cases arguments with
      | nil => simp
      | cons passed arguments =>
          intro parameter argument hmem hbyRef
          rw [List.zip_cons_cons, List.mem_cons] at hmem
          cases hfirst : first.byRef with
          | false =>
              rw [bindEach_value u hfirst] at hbind
              rcases hmem with hsame | hmem
              · rw [(Prod.mk.inj hsame).1, hfirst] at hbyRef
                cases hbyRef
              · exact ih hbind parameter argument hmem hbyRef
          | true =>
              cases horigin : passed.origin with
              | none =>
                  rw [bindEach_missing u hfirst horigin] at hbind
                  cases hbind
              | some origin =>
                  rw [bindEach_reference u hfirst horigin] at hbind
                  rcases hmem with hsame | hmem
                  · rw [(Prod.mk.inj hsame).2]
                    exact ⟨origin, horigin⟩
                  · exact ih hbind parameter argument hmem hbyRef

/-- Parameters are bound one after the other in the scope of the call. -/
theorem bound_of_bindEach {s : Store} {earlier : List (String × String)} {values : List String}
    {scope : Scope} (hbound : s.Bound earlier values scope) {u t : State}
    (hstore : u.store = s.withInner scope) (hnames : (parameters.map (·.name)).Nodup)
    (hfresh : ∀ name ∈ parameters.map (·.name), name ∉ earlier.map (·.1) ∧ name ∉ values)
    (hlength : parameters.length = arguments.length)
    (hbind : bindEach target parameters arguments u = .ok () t) :
    ∃ scope', t.store = s.withInner scope' ∧
      s.Bound (earlier ++ references parameters arguments) (values ++ valueNames parameters)
        scope' := by
  induction parameters generalizing arguments earlier values scope u with
  | nil =>
      cases hbind
      refine ⟨scope, hstore, ?_⟩
      simpa [references, valueNames] using hbound
  | cons parameter parameters ih =>
      cases arguments with
      | nil => cases hlength
      | cons argument arguments =>
          rw [List.map_cons, List.nodup_cons] at hnames
          rw [List.map_cons, List.forall_mem_cons] at hfresh
          obtain ⟨⟨hearlier, hvalues⟩, hrest⟩ := hfresh
          have hne (name : String) (hmem : name ∈ parameters.map (·.name)) :
              name ≠ parameter.name := by
            rintro rfl
            exact hnames.1 hmem
          cases hbyRef : parameter.byRef with
          | false =>
              rw [bindEach_value u hbyRef] at hbind
              have hstep : s.Bound earlier (values ++ [parameter.name])
                  ((s.withInner scope).declareTemporary parameter.name argument.value).scope :=
                hbound.value hearlier
              obtain ⟨scope', hstore', hbound'⟩ :=
                ih hstep (by rw [hstore]; rfl) hnames.2 (fun name hmem => by
                  refine ⟨(hrest name hmem).1, ?_⟩
                  rw [List.mem_append, List.mem_singleton, not_or]
                  exact ⟨(hrest name hmem).2, hne name hmem⟩) (Nat.succ.inj hlength) hbind
              refine ⟨scope', hstore', ?_⟩
              simpa [references, valueNames, hbyRef] using hbound'
          | true =>
              cases horigin : argument.origin with
              | none =>
                  rw [bindEach_missing u hbyRef horigin] at hbind
                  cases hbind
              | some origin =>
                  rw [bindEach_reference u hbyRef horigin] at hbind
                  have hstep : s.Bound (earlier ++ [(parameter.name, origin)]) values
                      ((s.withInner scope).addAlias parameter.name origin).scope :=
                    hbound.reference hearlier hvalues
                  obtain ⟨scope', hstore', hbound'⟩ :=
                    ih hstep (by rw [hstore]; rfl) hnames.2 (fun name hmem => by
                      refine ⟨?_, (hrest name hmem).2⟩
                      rw [List.map_append, List.mem_append, not_or]
                      exact ⟨(hrest name hmem).1, by simpa using hne name hmem⟩)
                      (Nat.succ.inj hlength) hbind
                  refine ⟨scope', hstore', ?_⟩
                  simpa [references, valueNames, hbyRef, horigin] using hbound'

end BindEach

theorem mem_references {parameters : List Parameter} {arguments : List Argument}
    {reference : String × String} :
    reference ∈ references parameters arguments ↔
      ∃ parameter argument, (parameter, argument) ∈ parameters.zip arguments ∧
        parameter.byRef = true ∧ argument.origin = some reference.2 ∧
        parameter.name = reference.1 := by
  obtain ⟨name, origin⟩ := reference
  simp only [references, List.mem_filterMap, Prod.exists]
  refine exists_congr fun parameter => exists_congr fun argument => and_congr_right fun _ => ?_
  cases parameter.byRef with
  | false => simp
  | true => simp [and_comm]

/-- After a frame and its scope have been entered and parameters with names of their own have
been bound, every reference parameter stands for the variable that was passed for it, as the
caller knew it, exactly if no parameter comes in between. -/
theorem reference_parameters_iff {past : List (List Scope)} {s t : State} {frame : Frame}
    {knot : Knot} {arguments : List Argument} (hstore : Store.Reached past s.store)
    (hframes : s.frames.items ≠ []) (hnames : (knot.parameters.map (·.name)).Nodup)
    (hbind : bindParameters knot arguments (s.pushFrame frame) = .ok () t) :
    (∀ parameter argument, (parameter, argument) ∈ knot.parameters.zip arguments →
      parameter.byRef = true →
        ∃ origin, argument.origin = some origin ∧
          t.store.StandsFor parameter.name s.store origin) ↔
      s.store.Unclouded (references knot.parameters arguments) (valueNames knot.parameters) := by
  have hempty : s.frames.isEmpty = false := by simpa [Stack.isEmpty] using hframes
  have hpush : (s.pushFrame frame).store = s.store.withInner {} := by
    rw [State.pushFrame, hempty]
    rfl
  unfold bindParameters at hbind
  split at hbind
  · next hlength =>
      obtain ⟨scope, hscope, hbound⟩ :=
        bound_of_bindEach .nothing hpush hnames (by simp) hlength hbind
      rw [List.nil_append, List.nil_append] at hbound
      rw [← hbound.standsFor_iff hstore.unlooped.1, hscope]
      constructor
      · intro hall reference hmem
        obtain ⟨parameter, argument, hzip, hbyRef, hpassed, hname⟩ := mem_references.mp hmem
        obtain ⟨origin, horigin, hstands⟩ := hall parameter argument hzip hbyRef
        obtain rfl : origin = reference.2 := Option.some.inj (horigin.symm.trans hpassed)
        rw [← hname]
        exact hstands
      · intro hall parameter argument hzip hbyRef
        obtain ⟨origin, horigin⟩ := origin_of_bindEach hbind parameter argument hzip hbyRef
        have hmem : (parameter.name, origin) ∈ references knot.parameters arguments :=
          mem_references.mpr ⟨parameter, argument, hzip, hbyRef, horigin, rfl⟩
        exact ⟨origin, horigin, hall _ hmem⟩
  · cases hbind

/-- A function with two reference parameters. -/
def assignBoth : Knot where
  name := "assign"
  id := ⟨1⟩
  parameters := [⟨"a", true⟩, ⟨"b", true⟩]
  objects := []
  stitches := []
  gathers := []
  isFunction := true

/-- A state with two global variables that have the names of those parameters. -/
def twoGlobals : State where
  frames := .ofList [⟨.root, ⟨0⟩, []⟩]
  store := { globals := ⟨[("a", .int 1), ("b", .int 2)]⟩ }
  generator := .ofSeed 0

theorem reached_twoGlobals : ∃ past, Store.Reached past twoGlobals.store :=
  ⟨_, (Store.Reached.new.after (.defineGlobal "a" (.int 1))).after (.defineGlobal "b" (.int 2))⟩

/-- Both parameters are passed `b`, and both stand for it, though one of them has its name. -/
theorem reference_parameters_shared :
    ∃ t, bindParameters assignBoth [⟨.int 2, some "b"⟩, ⟨.int 2, some "b"⟩]
        (twoGlobals.pushFrame ⟨.function 0, ⟨1⟩, []⟩) = .ok () t ∧
      t.store.StandsFor "a" twoGlobals.store "b" ∧ t.store.StandsFor "b" twoGlobals.store "b" := by
  obtain ⟨past, hreached⟩ := reached_twoGlobals
  obtain ⟨t, hbind⟩ : ∃ t, bindParameters assignBoth [⟨.int 2, some "b"⟩, ⟨.int 2, some "b"⟩]
      (twoGlobals.pushFrame ⟨.function 0, ⟨1⟩, []⟩) = .ok () t := ⟨_, rfl⟩
  have hsame (reference : String × String) (hmem : reference ∈ [("a", "b"), ("b", "b")]) :
      reference.2 = "b" := by
    simp only [List.mem_cons, List.not_mem_nil, or_false] at hmem
    rcases hmem with rfl | rfl <;> rfl
  have hunclouded : twoGlobals.store.Unclouded [("a", "b"), ("b", "b")] [] := by
    constructor
    · constructor
      · intro place reference hplace other hother _
        rw [hsame reference (List.mem_of_getElem? hplace),
          hsame other (List.mem_of_mem_take hother)]
      · intro reference hreference other hother _
        rw [hsame reference hreference, hsame other hother]
    · intro reference _ hvalue
      cases hvalue
  have hstands :=
    (reference_parameters_iff hreached (by decide) (by decide) hbind).mpr hunclouded
  obtain ⟨_, ha, hstandsA⟩ := hstands ⟨"a", true⟩ ⟨.int 2, some "b"⟩ (by decide) rfl
  obtain ⟨_, hb, hstandsB⟩ := hstands ⟨"b", true⟩ ⟨.int 2, some "b"⟩ (by decide) rfl
  cases ha
  cases hb
  exact ⟨t, hbind, hstandsA, hstandsB⟩

/-- Each parameter is passed the variable that has the name of the other, and the second one
stands for `b` instead of `a`. -/
theorem reference_parameters_swapped :
    ∃ t, bindParameters assignBoth [⟨.int 2, some "b"⟩, ⟨.int 1, some "a"⟩]
        (twoGlobals.pushFrame ⟨.function 0, ⟨1⟩, []⟩) = .ok () t ∧
      t.store.canonical "b" = "b" ∧ ¬t.store.StandsFor "b" twoGlobals.store "a" := by
  refine ⟨_, rfl, by decide, ?_⟩
  intro hstands
  have hcanonical := hstands.canonical
  revert hcanonical
  decide

end Story

end Skein
