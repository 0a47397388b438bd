import Mathlib.Data.List.Perm.Subperm
import Mathlib.Logic.Relation
import Skein.Proofs.Expr.Scopes

set_option autoImplicit false

/-!
# Expr: where aliases lead

An alias is made of the name that its target stands for, so when it is made nothing leads on
from there.  Later something may, since that name can become an alias itself, and what one
scope hides comes to light again when the scope is left, emptied or dropped.

Two facts survive all of this.  What an alias leads to is no alias of another name in a scope
further out; and the aliases of one scope do not run in a circle.  They are about pairs of
scopes and about single scopes, so any choice of the scopes, in the same order, has them too.
Together they say that no aliases run in a circle at all.  Then following a name ends where
nothing leads on, and all names on one way end at the same name.

An alias of a name for itself leads nowhere and is no circle.
-/

namespace Skein

open Relation

namespace Aliasing

/-! ## The aliases of one scope -/

/-- The aliases make a name stand for another one. -/
def Leads (aliases : Table String String) (name target : String) : Prop :=
  aliases.get? name = some target ∧ target ≠ name

/-- The aliases do not run in a circle. -/
def Acyclic (aliases : Table String String) : Prop :=
  ∀ name, ¬TransGen (Leads aliases) name name

theorem acyclic_empty : Acyclic ∅ := by
  intro name hloop
  obtain ⟨target, hleads, -⟩ := TransGen.head'_iff.mp hloop
  cases hleads.1

theorem leads_of_erase {aliases : Table String String} {key name target : String}
    (h : Leads (aliases.erase key) name target) : Leads aliases name target := by
  obtain ⟨hget, hne⟩ := h
  rw [Table.get?_erase] at hget
  split at hget
  · cases hget
  · exact ⟨hget, hne⟩

theorem Acyclic.erase {aliases : Table String String} (h : Acyclic aliases) (key : String) :
    Acyclic (aliases.erase key) := by
  intro name hloop
  exact h name (TransGen.mono (fun _ _ => leads_of_erase) _ _ hloop)

theorem leads_insert {aliases : Table String String} {key value name target : String}
    (h : Leads (aliases.insert key value) name target) :
    target = value ∨ Leads aliases name target := by
  obtain ⟨hget, hne⟩ := h
  rw [Table.get?_insert] at hget
  split at hget
  · exact .inl (Option.some.inj hget).symm
  · exact .inr ⟨hget, hne⟩

/-- Nothing leads on from a name after it has been made the target of an alias, if nothing
did before. -/
theorem not_leads_insert {aliases : Table String String} {key value : String}
    (hend : ∀ next, ¬Leads aliases value next) (next : String) :
    ¬Leads (aliases.insert key value) value next := by
  intro hleads
  rcases leads_insert hleads with rfl | hold
  · exact hleads.2 rfl
  · exact hend next hold

/-- An alias of a name from which nothing leads on closes no circle. -/
theorem Acyclic.insert {aliases : Table String String} (h : Acyclic aliases) {key value : String}
    (hend : ∀ next, ¬Leads aliases value next) : Acyclic (aliases.insert key value) := by
  have hafter : ∀ next, ¬Leads (aliases.insert key value) value next := not_leads_insert hend
  -- A way in the new table is one in the old table, or it has come to the end.
  have hway (first last : String) (hway : TransGen (Leads (aliases.insert key value)) first last) :
      last = value ∨ TransGen (Leads aliases) first last := by
    induction hway with
    | single hleads => exact (leads_insert hleads).imp_right .single
    | tail _ hleads ih =>
        rcases ih with rfl | hold
        · exact absurd hleads (hafter _)
        · exact (leads_insert hleads).imp_right hold.tail
  intro name hloop
  rcases hway name name hloop with rfl | hold
  · obtain ⟨next, hleads, -⟩ := TransGen.head'_iff.mp hloop
    exact hafter next hleads
  · exact h name hold

/-! ## The aliases of several scopes -/

/-- The innermost aliases that know a name make it stand for another one. -/
def LeadsIn (tables : List (Table String String)) (name target : String) : Prop :=
  tables.findSome? (·.get? name) = some target ∧ target ≠ name

/-- What the inner aliases lead to is no alias of another name among the outer ones. -/
def Clears (inner outer : Table String String) : Prop :=
  ∀ name target, inner.get? name = some target → ∀ next, ¬Leads outer target next

/-- Aliases of scopes, innermost first, of which the outer ones lead nowhere from where the
inner ones lead, and none run in a circle by themselves. -/
structure Unlooped (tables : List (Table String String)) : Prop where
  clears : tables.Pairwise Clears
  acyclic : ∀ aliases ∈ tables, Acyclic aliases

theorem Unlooped.sublist {tables fewer : List (Table String String)} (h : Unlooped tables)
    (hfewer : fewer.Sublist tables) : Unlooped fewer where
  clears := h.clears.sublist hfewer
  acyclic aliases hmem := h.acyclic aliases (hfewer.subset hmem)

theorem unlooped_nil : Unlooped [] := ⟨.nil, by simp⟩

theorem unlooped_cons {aliases : Table String String} {outer : List (Table String String)} :
    Unlooped (aliases :: outer) ↔
      (∀ other ∈ outer, Clears aliases other) ∧ Acyclic aliases ∧ Unlooped outer := by
  constructor
  · intro h
    obtain ⟨hclears, houter⟩ := List.pairwise_cons.mp h.clears
    refine ⟨hclears, h.acyclic aliases List.mem_cons_self, houter, ?_⟩
    intro other hother
    exact h.acyclic other (List.mem_cons_of_mem _ hother)
  · rintro ⟨hclears, hacyclic, houter⟩
    refine ⟨List.pairwise_cons.mpr ⟨hclears, houter.clears⟩, ?_⟩
    intro other hother
    rcases List.mem_cons.mp hother with rfl | hother
    · exact hacyclic
    · exact houter.acyclic other hother

theorem Unlooped.cons_empty {outer : List (Table String String)} (h : Unlooped outer) :
    Unlooped (∅ :: outer) := by
  refine unlooped_cons.mpr ⟨?_, acyclic_empty, h⟩
  intro other _ name target hget
  cases hget

/-- The innermost aliases decide, and the others do if those do not know the name. -/
theorem leadsIn_cons {aliases : Table String String} {outer : List (Table String String)}
    {name target : String} :
    LeadsIn (aliases :: outer) name target ↔
      Leads aliases name target ∨ aliases.get? name = none ∧ LeadsIn outer name target := by
  unfold LeadsIn Leads
  rw [List.findSome?_cons]
  cases aliases.get? name with
  | none => simp
  | some known => simp

theorem leads_of_leadsIn {tables : List (Table String String)} {name target : String}
    (h : LeadsIn tables name target) : ∃ aliases ∈ tables, Leads aliases name target := by
  obtain ⟨hfind, hne⟩ := h
  obtain ⟨aliases, hmem, hget⟩ := List.exists_of_findSome?_eq_some hfind
  exact ⟨aliases, hmem, hget, hne⟩

/-- Nothing outer leads on from where the innermost aliases lead. -/
theorem not_leadsIn_of_clears {aliases : Table String String}
    {outer : List (Table String String)} (hclears : ∀ other ∈ outer, Clears aliases other)
    {name target : String} (hget : aliases.get? name = some target) (next : String) :
    ¬LeadsIn outer target next := by
  intro hleads
  obtain ⟨other, hother, hleads⟩ := leads_of_leadsIn hleads
  exact hclears other hother name target hget next hleads

/-- Where nothing leads on from a name, no scope alone leads on from it: a scope that hid
another would do so with an alias of the name for itself, and that clears the scopes around
it. -/
theorem Unlooped.not_leads {tables : List (Table String String)} (h : Unlooped tables)
    {name : String} (hend : ∀ next, ¬LeadsIn tables name next) :
    ∀ aliases ∈ tables, ∀ next, ¬Leads aliases name next := by
  induction tables with
  | nil => simp
  | cons first outer ih =>
      obtain ⟨hclears, _, houter⟩ := unlooped_cons.mp h
      have hfirst : ∀ next, ¬Leads first name next := by
        intro next hleads
        exact hend next (leadsIn_cons.mpr (.inl hleads))
      intro aliases hmem
      rcases List.mem_cons.mp hmem with rfl | hmem
      · exact hfirst
      · cases hget : first.get? name with
        | none =>
            refine ih houter ?_ aliases hmem
            intro next hleads
            exact hend next (leadsIn_cons.mpr (.inr ⟨hget, hleads⟩))
        | some target =>
            have hself : target = name := by
              by_contra hne
              exact hfirst target ⟨hget, hne⟩
            rw [hself] at hget
            exact hclears aliases hmem name name hget

/-- A way through several scopes keeps to the outer ones, or it enters the innermost one and
then keeps to that. -/
theorem transGen_leadsIn_cons {aliases : Table String String}
    {outer : List (Table String String)} (hclears : ∀ other ∈ outer, Clears aliases other)
    {first last : String} (h : TransGen (LeadsIn (aliases :: outer)) first last) :
    TransGen (LeadsIn outer) first last ∨
      ∃ middle, ReflTransGen (LeadsIn outer) first middle ∧
        TransGen (Leads aliases) middle last := by
  induction h with
  | single hleads =>
      rcases leadsIn_cons.mp hleads with hinner | ⟨_, houter⟩
      · exact .inr ⟨first, .refl, .single hinner⟩
      · exact .inl (.single houter)
  | tail _ hleads ih =>
      rcases ih with hway | ⟨middle, hbefore, hwithin⟩
      · rcases leadsIn_cons.mp hleads with hinner | ⟨_, houter⟩
        · exact .inr ⟨_, hway.to_reflTransGen, .single hinner⟩
        · exact .inl (hway.tail houter)
      · rcases leadsIn_cons.mp hleads with hinner | ⟨_, houter⟩
        · exact .inr ⟨middle, hbefore, hwithin.tail hinner⟩
        · obtain ⟨_, _, hlast⟩ := TransGen.tail'_iff.mp hwithin
          exact absurd houter (not_leadsIn_of_clears hclears hlast.1 _)

/-- No aliases run in a circle through several scopes. -/
theorem Unlooped.not_transGen {tables : List (Table String String)} (h : Unlooped tables)
    (name : String) : ¬TransGen (LeadsIn tables) name name := by
  induction tables generalizing name with
  | nil =>
      intro hloop
      obtain ⟨target, hleads, -⟩ := TransGen.head'_iff.mp hloop
      cases hleads.1
  | cons aliases outer ih =>
      obtain ⟨hclears, hacyclic, houter⟩ := unlooped_cons.mp h
      intro hloop
      rcases transGen_leadsIn_cons hclears hloop with hway | ⟨middle, hbefore, hwithin⟩
      · exact ih houter name hway
      · -- The circle comes back to its start through the innermost scope, so it never left it.
        obtain ⟨_, _, hlast⟩ := TransGen.tail'_iff.mp hwithin
        have hstay := not_leadsIn_of_clears hclears hlast.1
        obtain rfl := (reflTransGen_iff_eq hstay).mp hbefore
        exact hacyclic _ hwithin

end Aliasing

namespace Store

open Aliasing

/-! ## Following a name -/

/-- The aliases of each scope, innermost first. -/
def tables (s : Store) : List (Table String String) := s.scopes.map (·.aliases)

theorem tables_eq (s : Store) : s.tables = s.scope.aliases :: s.enclosing.scopes.map (·.aliases) :=
  rfl

theorem alias?_eq (s : Store) (name : String) :
    s.alias? name = s.tables.findSome? (·.get? name) := by
  rw [alias?, Enclosing.alias?_eq, tables_eq, List.findSome?_cons, List.findSome?_map]
  cases s.scope.aliases.get? name with
  | none => rfl
  | some target => rfl

/-- The name stands for another one, by the innermost scope that knows it as an alias. -/
def Leads (s : Store) (name target : String) : Prop :=
  s.alias? name = some target ∧ target ≠ name

theorem leads_iff {s : Store} {name target : String} :
    s.Leads name target ↔ LeadsIn s.tables name target := by
  rw [Leads, LeadsIn, alias?_eq]

theorem Leads.unique {s : Store} {name target target' : String} (h : s.Leads name target)
    (h' : s.Leads name target') : target = target' :=
  Option.some.inj (h.1.symm.trans h'.1)

/-- A name that is an alias in some scope is counted as one. -/
theorem mem_aliases {s : Store} {name target : String} (h : s.alias? name = some target) :
    name ∈ s.aliases := by
  rw [aliases, List.mem_append]
  by_contra hnot
  obtain ⟨hscope, houter⟩ := not_or.mp hnot
  rw [alias?, Table.get?_eq_none _ _ hscope, Enclosing.alias?, if_neg houter] at h
  cases h

theorem passed_subset {s : Store} {passed : List String} {name target : String}
    (hget : s.alias? name = some target)
    (halias : ∀ other ∈ passed, other ≠ name → other ∈ s.aliases) : passed ⊆ s.aliases := by
  intro other hother
  by_cases hlast : other = name
  · rw [hlast]
    exact mem_aliases hget
  · exact halias other hother hlast

/-- Following ends where nothing leads on.  The names that were passed are all on the way, so
one that comes up again would close a circle; and all but the last are aliases, so the bound
on their number is not reached before the end. -/
theorem follow_end {s : Store} (hacyclic : ∀ name, ¬TransGen s.Leads name name)
    {passed : List String} {name : String} (hname : name ∈ passed) (hnodup : passed.Nodup)
    (hway : ∀ other ∈ passed, ReflTransGen s.Leads other name)
    (halias : ∀ other ∈ passed, other ≠ name → other ∈ s.aliases) {bound : Nat}
    (hbound : s.aliases.length < bound + passed.length) :
    ReflTransGen s.Leads name (s.follow passed bound name) ∧
      ∀ next, ¬s.Leads (s.follow passed bound name) next := by
  induction bound generalizing passed name with
  | zero =>
      refine ⟨.refl, ?_⟩
      intro next hleads
      have hlength := (hnodup.subperm (passed_subset hleads.1 halias)).length_le
      omega
  | succ bound ih =>
      cases hget : s.alias? name with
      | none =>
          simp only [follow, hget]
          refine ⟨.refl, ?_⟩
          intro next hleads
          rw [hleads.1] at hget
          cases hget
      | some target =>
          by_cases hagain : target ∈ passed
          · simp only [follow, hget, hagain, if_true]
            refine ⟨.refl, ?_⟩
            intro next hleads
            obtain rfl : target = next := Option.some.inj (hget.symm.trans hleads.1)
            exact hacyclic name (.head' hleads (hway target hagain))
          · simp only [follow, hget, hagain, if_false]
            have hne : target ≠ name := by
              rintro rfl
              exact hagain hname
            have hleads : s.Leads name target := ⟨hget, hne⟩
            have hon : ∀ other ∈ target :: passed, ReflTransGen s.Leads other target := by
              intro other hother
              rcases List.mem_cons.mp hother with rfl | hother
              · exact .refl
              · exact (hway other hother).tail hleads
            have hbefore : ∀ other ∈ target :: passed, other ≠ target → other ∈ s.aliases := by
              intro other hother hlast
              rcases List.mem_cons.mp hother with rfl | hother
              · exact absurd rfl hlast
              · exact passed_subset hget halias hother
            have hnew : (target :: passed).Nodup := List.nodup_cons.mpr ⟨hagain, hnodup⟩
            obtain ⟨hrest, hend⟩ := ih List.mem_cons_self hnew hon hbefore (by
              rw [List.length_cons]
              omega)
            exact ⟨.head hleads hrest, hend⟩

/-- The aliases of the store do not run in a circle, and will not when scopes go. -/
def Unlooped (s : Store) : Prop := Aliasing.Unlooped s.tables

theorem Unlooped.not_leads_loop {s : Store} (h : s.Unlooped) (name : String) :
    ¬TransGen s.Leads name name := by
  intro hloop
  exact h.not_transGen name (TransGen.mono (fun _ _ => leads_iff.mp) _ _ hloop)

/-- The name that a name finally stands for is on its way, and nothing leads on from it. -/
theorem Unlooped.canonical_end {s : Store} (h : s.Unlooped) (name : String) :
    ReflTransGen s.Leads name (s.canonical name) ∧ ∀ next, ¬s.Leads (s.canonical name) next := by
  refine follow_end h.not_leads_loop List.mem_cons_self (by simp) ?_ ?_ ?_
  · intro other hother
    rw [List.mem_singleton.mp hother]
  · intro other hother hne
    exact absurd (List.mem_singleton.mp hother) hne
  · rw [List.length_singleton]
    omega

/-- Ways from one name lead along each other, so where nothing leads on is only one place. -/
theorem end_unique {s : Store} {name first last : String}
    (hfirst : ReflTransGen s.Leads name first) (hend : ∀ next, ¬s.Leads first next)
    (hlast : ReflTransGen s.Leads name last) (hend' : ∀ next, ¬s.Leads last next) :
    first = last := by
  have hunique : Relator.RightUnique s.Leads := fun _ _ _ h h' => h.unique h'
  rcases ReflTransGen.total_of_right_unique hunique hfirst hlast with hway | hway
  · exact ((reflTransGen_iff_eq hend).mp hway).symm
  · exact (reflTransGen_iff_eq hend').mp hway

/-- A name stands for whatever its way ends at. -/
theorem Unlooped.canonical_eq {s : Store} (h : s.Unlooped) {name last : String}
    (hway : ReflTransGen s.Leads name last) (hend : ∀ next, ¬s.Leads last next) :
    s.canonical name = last := by
  obtain ⟨hcanonical, hstop⟩ := h.canonical_end name
  exact end_unique hcanonical hstop hway hend

/-- All names on one way stand for the same name. -/
theorem Unlooped.canonical_of_way {s : Store} (h : s.Unlooped) {name other : String}
    (hway : ReflTransGen s.Leads name other) : s.canonical name = s.canonical other := by
  obtain ⟨hrest, hend⟩ := h.canonical_end other
  exact h.canonical_eq (hway.trans hrest) hend

theorem Unlooped.canonical_canonical {s : Store} (h : s.Unlooped) (name : String) :
    s.canonical (s.canonical name) = s.canonical name := by
  obtain ⟨hway, _⟩ := h.canonical_end name
  exact (h.canonical_of_way hway).symm

/-! ## What is done to a store -/

theorem unlooped_new : ({} : Store).Unlooped :=
  unlooped_nil.cons_empty

theorem Unlooped.outer {s : Store} (h : s.Unlooped) :
    Aliasing.Unlooped (s.enclosing.scopes.map (·.aliases)) :=
  (unlooped_cons.mp h).2.2

theorem Unlooped.pushScope {s : Store} (h : s.Unlooped) : s.pushScope.Unlooped :=
  h.cons_empty

theorem Unlooped.popScope {s : Store} (h : s.Unlooped) : s.popScope.Unlooped := by
  unfold Store.popScope popScope?
  cases hpop : s.enclosing.pop? with
  | none => exact h
  | some popped =>
      obtain ⟨scope, outer⟩ := popped
      have houter := h.outer
      rw [Enclosing.scopes_of_pop? hpop] at houter
      exact houter

theorem Unlooped.resetScope {s : Store} (h : s.Unlooped) : s.resetScope.Unlooped :=
  h.outer.cons_empty

/-- A temporary takes the place of an alias, which may bring an outer alias to light. -/
theorem Unlooped.declareTemporary {s : Store} (h : s.Unlooped) (name : String) (value : Value) :
    (s.declareTemporary name value).Unlooped := by
  obtain ⟨hclears, hacyclic, houter⟩ := unlooped_cons.mp h
  refine unlooped_cons.mpr ⟨?_, hacyclic.erase name, houter⟩
  intro other hother key target hget
  have hget' : (s.scope.aliases.erase name).get? key = some target := hget
  rw [Table.get?_erase] at hget'
  split at hget'
  · cases hget'
  · exact hclears other hother key target hget'

/-- A new alias leads to where nothing leads on, in any scope. -/
theorem Unlooped.addAlias {s : Store} (h : s.Unlooped) (name target : String) :
    (s.addAlias name target).Unlooped := by
  obtain ⟨hclears, hacyclic, houter⟩ := unlooped_cons.mp h
  have hend : ∀ aliases ∈ s.tables, ∀ next, ¬Aliasing.Leads aliases (s.canonical target) next := by
    refine Aliasing.Unlooped.not_leads h ?_
    intro next hleads
    exact (h.canonical_end target).2 next (leads_iff.mpr hleads)
  refine unlooped_cons.mpr ⟨?_, hacyclic.insert (hend _ List.mem_cons_self), houter⟩
  intro other hother key value hget
  have hget' : (s.scope.aliases.insert name (s.canonical target)).get? key = some value := hget
  rw [Table.get?_insert] at hget'
  split at hget'
  · cases hget'
    exact hend other (List.mem_cons_of_mem _ hother)
  · exact hclears other hother key value hget'

theorem tables_eq_map_shape (s : Store) : s.tables = s.shape.map (·.2) := by
  rw [shape, List.map_map]
  rfl

theorem Unlooped.set {s t : Store} (h : s.Unlooped) {name : String} {value : Value}
    (hset : s.set name value = .ok t) : t.Unlooped := by
  have htables : t.tables = s.tables := by
    rw [tables_eq_map_shape, tables_eq_map_shape, shape_of_set hset]
  unfold Unlooped
  rw [htables]
  exact h

theorem Unlooped.withScopes {s : Store} {scopes : List Scope}
    (h : Aliasing.Unlooped (scopes.map (·.aliases))) : (s.withScopes scopes).Unlooped := by
  cases scopes with
  | nil => exact unlooped_new
  | cons scope outer => exact h

/-! ## The stores that there can be -/

/-- What is done to a store, other than going back to scopes that it had. -/
inductive Operation where
  | pushScope
  | popScope
  | resetScope
  | declareTemporary (name : String) (value : Value)
  | addAlias (name target : String)
  | set (name : String) (value : Value)
  | defineGlobal (name : String) (value : Value)
  | defineConstant (name : String) (value : Value)

/-- The store after an operation.  A write that fails changes nothing. -/
def after (s : Store) : Operation → Store
  | .pushScope => s.pushScope
  | .popScope => s.popScope
  | .resetScope => s.resetScope
  | .declareTemporary name value => s.declareTemporary name value
  | .addAlias name target => s.addAlias name target
  | .set name value =>
    match s.set name value with
    | .ok t => t
    | .error _ => s
  | .defineGlobal name value => s.defineGlobal name value
  | .defineConstant name value => s.defineConstant name value

/-- A store that a new one can come to, and the scopes that it has had, latest first.  It may
go back to scopes it had before, or to some of them in the same order. -/
inductive Reached : List (List Scope) → Store → Prop where
  | new : Reached [({} : Store).scopes] {}
  | after {past : List (List Scope)} {s : Store} (operation : Operation) :
      Reached past s → Reached ((s.after operation).scopes :: past) (s.after operation)
  | restore {past : List (List Scope)} {s : Store} {had scopes : List Scope} :
      Reached past s → had ∈ past → scopes.Sublist had →
        Reached ((s.withScopes scopes).scopes :: past) (s.withScopes scopes)

theorem Unlooped.after {s : Store} (h : s.Unlooped) (operation : Operation) :
    (s.after operation).Unlooped := by
  cases operation with
  | pushScope => exact h.pushScope
  | popScope => exact h.popScope
  | resetScope => exact h.resetScope
  | declareTemporary name value => exact h.declareTemporary name value
  | addAlias name target => exact h.addAlias name target
  | set name value =>
      simp only [Store.after]
      split
      · next t hset => exact h.set hset
      · exact h
  | defineGlobal name value | defineConstant name value => exact h

/-- No store that there can be has aliases that run in a circle, nor had it any. -/
theorem Reached.unlooped {past : List (List Scope)} {s : Store} (h : Reached past s) :
    s.Unlooped ∧ ∀ had ∈ past, Aliasing.Unlooped (had.map (·.aliases)) := by
  have hcons {past : List (List Scope)} {t : Store} (ht : t.Unlooped)
      (hpast : ∀ had ∈ past, Aliasing.Unlooped (had.map (·.aliases))) :
      t.Unlooped ∧ ∀ had ∈ t.scopes :: past, Aliasing.Unlooped (had.map (·.aliases)) := by
    refine ⟨ht, ?_⟩
    intro had hhad
    rcases List.mem_cons.mp hhad with rfl | hhad
    · exact ht
    · exact hpast had hhad
  induction h with
  | new => exact hcons unlooped_new (by simp)
  | after operation _ ih => exact hcons (ih.1.after operation) ih.2
  | restore _ hhad hfewer ih =>
      have hscopes := (ih.2 _ hhad).sublist (hfewer.map (·.aliases))
      exact hcons (Unlooped.withScopes hscopes) ih.2

/-- In every store that there can be, aliases never run in a circle of two names or more.  So
what a name stands for stands for itself, and all names on one way stand for the same name. -/
theorem aliases_of_reached {past : List (List Scope)} {s : Store} (h : Reached past s) :
    (∀ name, ¬TransGen s.Leads name name) ∧
      (∀ name, s.canonical (s.canonical name) = s.canonical name) ∧
      ∀ name other, ReflTransGen s.Leads name other → s.canonical name = s.canonical other := by
  have hunlooped := h.unlooped.1
  refine ⟨hunlooped.not_leads_loop, hunlooped.canonical_canonical, ?_⟩
  intro name other hway
  exact hunlooped.canonical_of_way hway

/-- The scope in between makes `hp` stand for `health`.  Once it is dropped, `health` can be
made to stand for `hp`, and what led to `health` leads on. -/
theorem aliases_of_dropped :
    ∃ past s, Reached past s ∧ s.canonical "points" = "hp" ∧ ¬TransGen s.Leads "points" "points" ∧
      s.canonical (s.canonical "points") = s.canonical "points" ∧
      s.canonical "points" = s.canonical "health" := by
  let inner : Scope := { aliases := ⟨[("points", "health")]⟩ }
  let middle : Scope := { aliases := ⟨[("hp", "health")]⟩ }
  have hnested := ((((Reached.new.after .pushScope).after (.addAlias "hp" "health")).after
    .pushScope).after (.addAlias "points" "hp"))
  have hfewer : [inner, {}].Sublist [inner, middle, {}] := by decide
  have hdropped := hnested.restore List.mem_cons_self hfewer
  have hreached := hdropped.after (.addAlias "health" "hp")
  obtain ⟨hloop, hagain, hway⟩ := aliases_of_reached hreached
  refine ⟨_, _, hreached, by decide, hloop "points", hagain "points", hway _ _ ?_⟩
  exact .single ⟨by decide, by decide⟩

end Store

end Skein
