import Skein.Expr.Sandbox
import Skein.Proofs.Expr.Scopes
import Skein.Proofs.Outcome
import Skein.Proofs.Value.Selections

set_option autoImplicit false

/-!
# Expr: evaluation keeps lists within their definitions

The lists that an evaluation meets come from the store, from literals, from the names of items
and from operations on such lists.  So if the store and the literals hold well-formed lists
only, everything on the stack is well formed at every step, and so is what the evaluation
writes and gives back.  No operation then meets a definition that is not registered, in
whatever order the tokens are evaluated.
-/

namespace Skein

open Outcome

/-! ## Stores -/

/-- Every value of a table is well formed. -/
def Table.WellFormed (r : Registry) (t : Table String Value) : Prop :=
  ∀ name v, t.get? name = some v → v.WellFormed r

theorem Table.WellFormed.insert {r : Registry} {t : Table String Value} (h : t.WellFormed r)
    (name : String) {value : Value} (hvalue : value.WellFormed r) :
    (t.insert name value).WellFormed r := by
  intro other v hv
  rw [Table.get?_insert] at hv
  split at hv
  · cases hv
    exact hvalue
  · exact h other v hv

/-- The store has the registry, and all values that it holds are well formed for it. -/
structure Store.WellFormed (r : Registry) (s : Store) : Prop where
  registry : s.registry = r
  globals : s.globals.WellFormed r
  constants : s.constants.WellFormed r
  scopes : ∀ scope ∈ s.scopes, scope.temporaries.WellFormed r

theorem Scope.wellFormed_of_write? {r : Registry} {scope scope' : Scope} {name : String}
    {value : Value} (h : scope.temporaries.WellFormed r) (hvalue : value.WellFormed r)
    (hwrite : scope.write? name value = some scope') : scope'.temporaries.WellFormed r := by
  unfold write? at hwrite
  split at hwrite
  · cases hwrite
    exact h.insert name hvalue
  · cases hwrite

theorem Enclosing.wellFormed_of_writeIn? {r : Registry} {scopes scopes' : List Scope}
    {name : String} {value : Value} (h : ∀ scope ∈ scopes, scope.temporaries.WellFormed r)
    (hvalue : value.WellFormed r) (hwrite : writeIn? name value scopes = some scopes') :
    ∀ scope ∈ scopes', scope.temporaries.WellFormed r := by
  induction scopes generalizing scopes' with
  | nil => cases hwrite
  | cons inner outer ih =>
      obtain ⟨hinner, houter⟩ := List.forall_mem_cons.mp h
      unfold writeIn? at hwrite
      split at hwrite
      · next written hwritten =>
          cases hwrite
          exact List.forall_mem_cons.mpr
            ⟨Scope.wellFormed_of_write? hinner hvalue hwritten, houter⟩
      · obtain ⟨written, hwritten, rfl⟩ := Option.map_eq_some_iff.mp hwrite
        exact List.forall_mem_cons.mpr ⟨hinner, ih houter hwritten⟩

namespace Store.WellFormed

variable {r : Registry} {s t : Store}

theorem get? (h : s.WellFormed r) {name : String} {v : Value} (hget : s.get? name = some v) :
    v.WellFormed r := by
  obtain ⟨hinner, houter⟩ := List.forall_mem_cons.mp h.scopes
  rcases Option.or_eq_some_iff.mp hget with hconstant | ⟨_, hget⟩
  · exact h.constants _ v hconstant
  · rcases Option.or_eq_some_iff.mp hget with htemporary | ⟨_, hglobal⟩
    · rcases Option.or_eq_some_iff.mp htemporary with htemporary | ⟨_, htemporary⟩
      · exact hinner _ v htemporary
      · rw [Enclosing.temporary?_eq] at htemporary
        obtain ⟨scope, hscope, hv⟩ := List.exists_of_findSome?_eq_some htemporary
        exact houter scope hscope _ v hv
    · exact h.globals _ v hglobal

theorem set (h : s.WellFormed r) {name : String} {value : Value} (hvalue : value.WellFormed r)
    (hset : s.set name value = .ok t) : t.WellFormed r := by
  obtain ⟨hinner, houter⟩ := List.forall_mem_cons.mp h.scopes
  simp only [Store.set] at hset
  split at hset
  · cases hset
  · split at hset
    · next scope hwrite =>
        cases hset
        refine ⟨h.registry, h.globals, h.constants, List.forall_mem_cons.mpr ⟨?_, houter⟩⟩
        exact Scope.wellFormed_of_write? hinner hvalue hwrite
    · split at hset
      · next enclosing hwrite =>
          cases hset
          rw [Enclosing.write?_eq] at hwrite
          obtain ⟨scopes, hscopes, rfl⟩ := Option.map_eq_some_iff.mp hwrite
          refine ⟨h.registry, h.globals, h.constants, List.forall_mem_cons.mpr ⟨hinner, ?_⟩⟩
          exact Enclosing.wellFormed_of_writeIn? houter hvalue hscopes
      · cases hset
        exact ⟨h.registry, h.globals.insert _ hvalue, h.constants, h.scopes⟩

theorem declareTemporary (h : s.WellFormed r) (name : String) {value : Value}
    (hvalue : value.WellFormed r) : (s.declareTemporary name value).WellFormed r := by
  obtain ⟨hinner, houter⟩ := List.forall_mem_cons.mp h.scopes
  exact ⟨h.registry, h.globals, h.constants,
    List.forall_mem_cons.mpr ⟨hinner.insert name hvalue, houter⟩⟩

end Store.WellFormed

/-! ## Hosts without functions -/

variable {σ ε : Type}

/-- In this state the host has no function of its own. -/
def Host.IsBare (h : Host σ ε) (s : σ) : Prop :=
  ∀ name, h.isStoryFunction s name = false ∧ h.isExternal s name = false

/-- How a host goes with an evaluation: what is put in the store is there, randomness leaves
the store alone, neither makes functions, and a call of a function that is not there fails
without an effect, for a reason of its own. -/
structure Host.Lawful (h : Host σ ε) : Prop where
  fault_inj : ∀ {fault fault' : ExprFault}, h.fault fault = h.fault fault' → fault = fault'
  store_withStore : ∀ (s : σ) (store : Store), h.store (h.withStore s store) = store
  store_random : ∀ (low high : Int64) (s : σ), h.store (h.random low high s).2 = h.store s
  store_reseed : ∀ (seed : UInt64) (s : σ), h.store (h.reseed seed s) = h.store s
  bare_withStore : ∀ {s : σ} (store : Store), h.IsBare s → h.IsBare (h.withStore s store)
  bare_random : ∀ (low high : Int64) {s : σ}, h.IsBare s → h.IsBare (h.random low high s).2
  bare_reseed : ∀ (seed : UInt64) {s : σ}, h.IsBare s → h.IsBare (h.reseed seed s)
  callStory : ∀ (name : String) (args : List Argument) {s : σ},
    h.isStoryFunction s name = false → ∃ e, h.callStory name args s = .error e s ∧
      ∀ id, e ≠ h.fault (.value (.unknownDefinition id))
  callExternal : ∀ (name : String) (args : List Value) {s : σ},
    h.isExternal s name = false → ∃ e, h.callExternal name args s = .error e s ∧
      ∀ id, e ≠ h.fault (.value (.unknownDefinition id))

/-- A host that has no functions, with a store that is well formed. -/
structure Host.Tidy (h : Host σ ε) (r : Registry) (s : σ) : Prop where
  store : (h.store s).WellFormed r
  bare : h.IsBare s

/-- From every tidy state the computation leaves a tidy state; what it answers is good, and
where it fails no definition was missing. -/
def Host.Tidies {α : Type} (h : Host σ ε) (r : Registry) (good : α → Prop)
    (x : EStateM ε σ α) : Prop :=
  ∀ s, h.Tidy r s → Ensures (fun a t => good a ∧ h.Tidy r t)
    (fun e t => (∀ id, e ≠ h.fault (.value (.unknownDefinition id))) ∧ h.Tidy r t) (x s)

/-- An operand that is a well-formed list if it is a list. -/
def Operand.WellFormed (r : Registry) : Operand → Prop
  | .value v => v.WellFormed r
  | _ => True

namespace Host

variable {α β : Type} {h : Host σ ε} {r : Registry} {good : α → Prop} {good' : β → Prop}

theorem tidies_pure {a : α} (ha : good a) : h.Tidies r good (pure a) := fun _ hs => ⟨ha, hs⟩

theorem Tidies.bind {x : EStateM ε σ α} {f : α → EStateM ε σ β} (hx : h.Tidies r good x)
    (hf : ∀ a, good a → h.Tidies r good' (f a)) : h.Tidies r good' (x >>= f) := by
  intro s hs
  refine Ensures.bind ((hx s hs).mono ?_ fun _ _ hbad => hbad)
  rintro a t ⟨ha, ht⟩
  exact hf a ha t ht

/-- A look at the state shows a tidy state. -/
theorem tidies_get_bind {f : σ → EStateM ε σ β} (hf : ∀ s, h.Tidy r s → h.Tidies r good' (f s)) :
    h.Tidies r good' (get >>= f) := fun s hs => ensures_get (hf s hs s hs)

section Lawful

variable (hh : h.Lawful)

include hh

theorem tidies_fail {fault : ExprFault} (hfault : ∀ id, fault ≠ .value (.unknownDefinition id)) :
    h.Tidies r good (h.fail fault) :=
  fun _ hs => ⟨fun id he => hfault id (hh.fault_inj he), hs⟩

theorem tidies_ofValue {x : Except ValueFault α} (hx : ValueFault.Spares good x) :
    h.Tidies r good (h.ofValue x) := by
  cases x with
  | ok a => exact tidies_pure hx
  | error fault =>
      refine tidies_fail hh fun id hfault => hx id ?_
      cases hfault
      rfl

theorem tidies_setVariable (name : String) {value : Value} (hvalue : value.WellFormed r) :
    h.Tidies r (fun _ => True) (h.setVariable name value) := by
  intro s hs
  have hget : (h.getStore : EStateM ε σ Store) s = .ok (h.store s) s := rfl
  rw [Host.setVariable, run_of_eq_ok hget]
  cases hset : (h.store s).set name value with
  | ok store =>
      refine ⟨trivial, ?_, hh.bare_withStore store hs.bare⟩
      rw [hh.store_withStore]
      exact hs.store.set hvalue hset
  | error fault =>
      refine tidies_fail hh (fun id hfault => ?_) s hs
      -- A write fails only on constants.
      subst hfault
      simp only [Store.set] at hset
      split at hset
      · cases hset
      · split at hset
        · cases hset
        · split at hset <;> cases hset

theorem tidies_declareTemporary (name : String) {value : Value} (hvalue : value.WellFormed r) :
    h.Tidies r (fun _ => True) (h.declareTemporary name value) := by
  intro s hs
  refine ⟨trivial, ?_, hh.bare_withStore _ hs.bare⟩
  rw [hh.store_withStore]
  exact hs.store.declareTemporary name hvalue

theorem tidies_draw (low high : Int64) : h.Tidies r (fun _ => True) (Builtin.draw h low high) := by
  intro s hs
  refine ⟨trivial, ?_, hh.bare_random low high hs.bare⟩
  rw [hh.store_random]
  exact hs.store

theorem tidies_reseed (seed : UInt64) :
    h.Tidies r (fun _ => True) (modify (h.reseed seed) : EStateM ε σ PUnit) := by
  intro s hs
  refine ⟨trivial, ?_, hh.bare_reseed seed hs.bare⟩
  rw [hh.store_reseed]
  exact hs.store

/-! ## Operands -/

omit hh in
theorem Tidy.wellFormed_of_resolve? (hr : r.Built) {s : σ} (hs : h.Tidy r s) {operand : Operand}
    (hoperand : operand.WellFormed r) {v : Value} (hv : h.resolve? s operand = some v) :
    v.WellFormed r := by
  cases operand with
  | value w =>
      cases hv
      exact hoperand
  | ident name =>
      rcases Option.or_eq_some_iff.mp hv with hstored | ⟨_, hv⟩
      · exact hs.store.get? hstored
      · rcases Option.or_eq_some_iff.mp hv with hitem | ⟨_, hcount⟩
        · rw [hs.store.registry] at hitem
          obtain ⟨item, hfound, rfl⟩ := Option.map_eq_some_iff.mp hitem
          exact Selection.wellFormed_ofItem (hr.declares_of_findItem? hfound)
        · obtain ⟨n, _, rfl⟩ := Option.map_eq_some_iff.mp hcount
          trivial
  | path p =>
      cases hv
      trivial
  | absent => cases hv

theorem tidies_missing (operand : Operand) (op : String) :
    h.Tidies r good (h.missing operand op) := by
  unfold Host.missing
  split <;> exact tidies_fail hh (by simp)

/-! ## Arguments of built-in functions -/

theorem tidies_intArg (b : Builtin) (v : Value) : h.Tidies r (fun _ => True) (b.intArg h v) := by
  unfold Builtin.intArg
  split
  · exact tidies_pure trivial
  · exact tidies_fail hh (by simp)

theorem tidies_floatArg (b : Builtin) (v : Value) :
    h.Tidies r (fun _ => True) (b.floatArg h v) := by
  unfold Builtin.floatArg
  split
  · exact tidies_pure trivial
  · exact tidies_fail hh (by simp)

theorem tidies_pathArg (b : Builtin) (v : Value) : h.Tidies r (fun _ => True) (b.pathArg h v) := by
  unfold Builtin.pathArg
  split
  · exact tidies_pure trivial
  · exact tidies_fail hh (by simp)

theorem tidies_spelledArg (b : Builtin) (s : String) :
    h.Tidies r (fun _ => True) (b.spelledArg h s) := by
  unfold Builtin.spelledArg
  split
  · exact tidies_pure trivial
  · exact tidies_fail hh (by simp)

theorem tidies_listArg (b : Builtin) {v : Value} (hv : v.WellFormed r) :
    h.Tidies r (·.WellFormed r) (b.listArg h v) := by
  unfold Builtin.listArg
  split
  · exact tidies_pure hv
  · exact tidies_fail hh (by simp)

theorem tidies_sectionCount (b : Builtin) (count : σ → String → Option Int64) (path : String) :
    h.Tidies r (·.WellFormed r) (b.sectionCount h count path) := by
  refine tidies_get_bind fun s hs => ?_
  split
  · exact tidies_pure trivial
  · exact tidies_fail hh (by simp)

omit hh in
/-- An answer whatever the computation before it gives. -/
theorem Tidies.plain {x : EStateM ε σ α} (hx : h.Tidies r good x) {f : α → Value}
    (hf : ∀ a, (f a).WellFormed r) :
    h.Tidies r (fun answer => ∀ v ∈ answer, v.WellFormed r)
      (do return some (f (← x)) : EStateM ε σ (Option Value)) := by
  refine hx.bind fun a _ => tidies_pure ?_
  rintro v ⟨⟩
  exact hf a

/-- An answer that is made of a list. -/
theorem tidies_ofList (b : Builtin) {v : Value} (hv : v.WellFormed r) {f : Selection → Value}
    (hf : ∀ l : Selection, l.WellFormed r → (f l).WellFormed r) :
    h.Tidies r (fun answer => ∀ v ∈ answer, v.WellFormed r)
      (do return some (f (← b.listArg h v)) : EStateM ε σ (Option Value)) := by
  refine (tidies_listArg hh b hv).bind fun l hl => tidies_pure ?_
  rintro v ⟨⟩
  exact hf l hl

variable (hr : r.Built)

include hr

theorem tidies_require {operand : Operand} (hoperand : operand.WellFormed r) (op : String) :
    h.Tidies r (·.WellFormed r) (h.require operand op) := by
  refine tidies_get_bind fun s hs => ?_
  split
  · next v hv => exact tidies_pure (hs.wellFormed_of_resolve? hr hoperand hv)
  · exact tidies_missing hh operand op

/-! ## Operators -/

theorem tidies_applyBinary (op : Operator) {lhs rhs : Operand} (hlhs : lhs.WellFormed r)
    (hrhs : rhs.WellFormed r) :
    h.Tidies r (·.WellFormed r) (h.applyBinary op lhs rhs) := by
  unfold Host.applyBinary
  split
  · exact tidies_fail hh (by simp)
  · next binary _ =>
      refine tidies_get_bind fun s hs => ?_
      split
      · next v w hv hw =>
          have hv := hs.wellFormed_of_resolve? hr hlhs hv
          have hw := hs.wellFormed_of_resolve? hr hrhs hw
          rw [hs.store.registry]
          refine (tidies_ofValue hh (binary.spares_apply hr hv hw)).bind fun answer hanswer => ?_
          split
          · exact tidies_pure (hanswer _ rfl)
          · split
            · exact tidies_pure trivial
            · exact tidies_fail hh (by simp)
      · unfold Host.applyMissing
        split
        · exact tidies_pure trivial
        · exact tidies_pure trivial
        · split
          · exact tidies_pure trivial
          · split <;> exact tidies_missing hh _ _

theorem tidies_applyUnary (op : Operator) {operand : Operand} (hoperand : operand.WellFormed r) :
    h.Tidies r (·.WellFormed r) (h.applyUnary op operand) := by
  unfold Host.applyUnary
  split
  · exact tidies_fail hh (by simp)
  · next unary _ =>
      refine tidies_get_bind fun s hs => ?_
      split
      · split
        · exact tidies_pure trivial
        · exact tidies_missing hh _ _
      · next v hv =>
          have hv := hs.wellFormed_of_resolve? hr hoperand hv
          rw [hs.store.registry]
          refine (tidies_ofValue hh (unary.spares_apply hr hv)).bind fun answer hanswer => ?_
          split
          · exact tidies_fail hh (by simp)
          · next result =>
              have hresult : result.WellFormed r := hanswer _ rfl
              have hstore : h.Tidies r (fun _ => True) (h.storeStep unary operand result) := by
                unfold Host.storeStep
                split
                · exact tidies_setVariable hh _ hresult
                · exact tidies_setVariable hh _ hresult
                · exact tidies_pure trivial
              exact hstore.bind fun _ _ => tidies_pure hresult

theorem tidies_assigned (op : Operator) (name : String) {value : Value}
    (hvalue : value.WellFormed r) :
    h.Tidies r (·.WellFormed r) (h.assigned op name value) := by
  unfold Host.assigned
  split
  · exact tidies_pure hvalue
  · next binary _ =>
      have hname : Operand.WellFormed r (.ident name) := trivial
      refine (tidies_require hh hr hname op.symbol).bind fun current hcurrent => ?_
      refine tidies_get_bind fun s hs => ?_
      rw [hs.store.registry]
      refine (tidies_ofValue hh (binary.spares_apply hr hcurrent hvalue)).bind
        fun answer hanswer => ?_
      split
      · exact tidies_pure (hanswer _ rfl)
      · exact tidies_fail hh (by simp)

theorem tidies_assign (temp : Bool) (op : Operator) (target : Operand) {rhs : Operand}
    (hrhs : rhs.WellFormed r) : h.Tidies r (fun _ => True) (h.assign temp op target rhs) := by
  unfold Host.assign
  split
  · refine (tidies_require hh hr hrhs op.symbol).bind fun value hvalue => ?_
    refine (tidies_assigned hh hr op _ hvalue).bind fun value hvalue => ?_
    split
    · exact tidies_declareTemporary hh _ hvalue
    · exact tidies_setVariable hh _ hvalue
  · exact tidies_fail hh (by simp)

/-! ## Built-in functions -/

omit hr in
/-- An answer that is made of a list and the definitions that it draws from. -/
theorem tidies_ofOrigins (b : Builtin) {v : Value} (hv : v.WellFormed r)
    {f : Selection → Registry → Except ValueFault Selection}
    (hf : ∀ l : Selection, l.WellFormed r → ∃ m, f l r = .ok m ∧ m.WellFormed r) :
    h.Tidies r (fun answer => ∀ v ∈ answer, v.WellFormed r)
      (do
        let l ← b.listArg h v
        return some (.list (← h.ofValue (f l (← h.getStore).registry))) :
          EStateM ε σ (Option Value)) := by
  refine (tidies_listArg hh b hv).bind fun l hl => tidies_get_bind fun s hs => ?_
  obtain ⟨m, hm, hwell⟩ := hf l hl
  rw [hs.store.registry, hm]
  have hspares : ValueFault.Spares (Selection.WellFormed r) (.ok m) := hwell
  refine (tidies_ofValue hh hspares).bind fun m hm => tidies_pure ?_
  rintro v ⟨⟩
  exact hm

-- How a text spells a number does not matter here, and it is long to unfold.
attribute [local irreducible] Number.readFloat?

theorem tidies_builtin_one (b : Builtin) {v : Value} (hv : v.WellFormed r) :
    h.Tidies r (fun answer => ∀ v ∈ answer, v.WellFormed r) (b.call h [v]) := by
  cases b with
  | seedRandom =>
      refine (tidies_intArg hh _ _).bind fun seed _ => ?_
      exact (tidies_reseed hh _).bind fun _ _ => tidies_pure fun _ h => nomatch h
  | int =>
      cases v with
      | string s => exact (tidies_spelledArg hh _ _).plain fun _ => trivial
      | bool _ | int _ | float _ | list _ => exact (tidies_intArg hh _ _).plain fun _ => trivial
  | float =>
      cases v with
      | string s => exact (tidies_spelledArg hh _ _).plain fun _ => trivial
      | bool _ | int _ | float _ | list _ => exact (tidies_floatArg hh _ _).plain fun _ => trivial
  | floor | ceiling =>
      cases v with
      | float x =>
          refine tidies_pure ?_
          rintro v ⟨⟩
          trivial
      | bool _ | int _ | string _ | list _ => exact (tidies_intArg hh _ _).plain fun _ => trivial
  | turnsSince =>
      refine (tidies_pathArg hh _ _).bind fun path _ => ?_
      refine (tidies_sectionCount hh _ _ _).bind fun n hn => tidies_pure ?_
      rintro v ⟨⟩
      exact hn
  | readCount =>
      cases v with
      | int n =>
          refine tidies_pure ?_
          rintro v ⟨⟩
          trivial
      | bool _ | float _ | string _ | list _ =>
          refine (tidies_pathArg hh _ _).bind fun path _ => ?_
          refine (tidies_sectionCount hh _ _ _).bind fun n hn => tidies_pure ?_
          rintro v ⟨⟩
          exact hn
  | listCount | listValue => exact tidies_ofList hh _ hv fun _ _ => trivial
  | listMin => exact tidies_ofList hh _ hv fun _ hl => hl.minList
  | listMax => exact tidies_ofList hh _ hv fun _ hl => hl.maxList
  | listAll => exact tidies_ofOrigins hh _ hv fun _ hl => hl.exists_allPossible hr
  | listInvert => exact tidies_ofOrigins hh _ hv fun _ hl => hl.exists_inverse hr
  | listRandom =>
      refine (tidies_listArg hh _ hv).bind fun l hl => ?_
      split
      · refine tidies_pure ?_
        rintro v ⟨⟩
        exact hl
      · refine (tidies_draw hh _ _).bind fun place _ => tidies_pure ?_
        rintro v ⟨⟩
        split
        · next item hitem =>
            exact Selection.wellFormed_ofItem (hl.items item (List.mem_of_getElem? hitem)).2
        · exact Selection.wellFormed_empty
  | random | pow | min | max | turns | choiceCount | listRange => exact tidies_fail hh (by simp)

theorem tidies_isBelow {v w : Value} (hv : v.WellFormed r) (hw : w.WellFormed r) :
    h.Tidies r (fun _ => True) (Builtin.isBelow h v w) := by
  refine tidies_get_bind fun s hs => ?_
  rw [hs.store.registry]
  exact (tidies_ofValue hh (Binary.less.spares_apply hr hv hw)).bind fun _ _ => tidies_pure trivial

theorem tidies_builtin_two (b : Builtin) {v w : Value} (hv : v.WellFormed r)
    (hw : w.WellFormed r) :
    h.Tidies r (fun answer => ∀ v ∈ answer, v.WellFormed r) (b.call h [v, w]) := by
  cases b with
  | random =>
      refine (tidies_intArg hh _ _).bind fun low _ => (tidies_intArg hh _ _).bind fun high _ => ?_
      split
      · exact tidies_fail hh (by simp)
      · exact (tidies_draw hh _ _).plain fun _ => trivial
  | pow =>
      refine (tidies_floatArg hh _ _).bind fun base _ => ?_
      exact (tidies_floatArg hh _ _).plain fun _ => trivial
  | min =>
      refine (tidies_isBelow hh hr hv hw).plain fun below => ?_
      cases below
      · exact hw
      · exact hv
  | max =>
      refine (tidies_isBelow hh hr hv hw).plain fun below => ?_
      cases below
      · exact hv
      · exact hw
  | int | float | floor | ceiling | readCount => cases v <;> exact tidies_fail hh (by simp)
  | seedRandom | turns | turnsSince | choiceCount | listCount | listMin | listMax | listAll
  | listInvert | listRange | listValue | listRandom => exact tidies_fail hh (by simp)

omit hr in
theorem tidies_builtin_three (b : Builtin) {u : Value} (hu : u.WellFormed r) (v w : Value) :
    h.Tidies r (fun answer => ∀ v ∈ answer, v.WellFormed r) (b.call h [u, v, w]) := by
  cases b with
  | listRange =>
      refine (tidies_listArg hh _ hu).bind fun l hl => ?_
      refine (tidies_intArg hh _ _).bind fun low _ => ?_
      exact (tidies_intArg hh _ _).plain fun high => hl.range low high
  | int | float | floor | ceiling | readCount => cases u <;> exact tidies_fail hh (by simp)
  | random | seedRandom | pow | min | max | turns | turnsSince | choiceCount | listCount
  | listMin | listMax | listAll | listInvert | listValue | listRandom =>
      exact tidies_fail hh (by simp)

theorem tidies_builtin (b : Builtin) {args : List Value} (hargs : ∀ v ∈ args, v.WellFormed r) :
    h.Tidies r (fun answer => ∀ v ∈ answer, v.WellFormed r) (b.call h args) := by
  match args, hargs with
  | [], _ =>
      cases b with
      | turns | choiceCount =>
          exact tidies_get_bind fun _ _ => tidies_pure (by rintro v ⟨⟩; trivial)
      | random | seedRandom | int | float | floor | ceiling | pow | min | max | turnsSince
      | readCount | listCount | listMin | listMax | listAll | listInvert | listRange | listValue
      | listRandom => exact tidies_fail hh (by simp)
  | [v], hargs => exact tidies_builtin_one hh hr b (hargs v (by simp))
  | [v, w], hargs => exact tidies_builtin_two hh hr b (hargs v (by simp)) (hargs w (by simp))
  | [u, v, w], hargs => exact tidies_builtin_three hh b (hargs u (by simp)) v w
  | v :: _ :: _ :: _ :: _, _ =>
      -- No built-in function takes as many arguments.
      cases b with
      | int | float | floor | ceiling | readCount => cases v <;> exact tidies_fail hh (by simp)
      | random | seedRandom | pow | min | max | turns | turnsSince | choiceCount | listCount
      | listMin | listMax | listAll | listInvert | listRange | listValue | listRandom =>
          exact tidies_fail hh (by simp)

/-! ## Calls -/

theorem tidies_argument (function : String) {operand : Operand}
    (hoperand : operand.WellFormed r) :
    h.Tidies r (·.WellFormed r) (h.argument function operand) := by
  refine tidies_get_bind fun s hs => ?_
  split
  · next v hv => exact tidies_pure (hs.wellFormed_of_resolve? hr hoperand hv)
  · split <;> exact tidies_fail hh (by simp)

theorem tidies_arguments (function : String) {operands : List Operand}
    (hoperands : ∀ operand ∈ operands, operand.WellFormed r) :
    h.Tidies r (fun args => ∀ v ∈ args, v.WellFormed r) (h.arguments function operands) := by
  induction operands with
  | nil => exact tidies_pure fun _ h => nomatch h
  | cons operand rest ih =>
      obtain ⟨hfirst, hrest⟩ := List.forall_mem_cons.mp hoperands
      refine (tidies_argument hh hr function hfirst).bind fun v hv => ?_
      refine (ih hrest).bind fun args hargs => tidies_pure ?_
      exact List.forall_mem_cons.mpr ⟨hv, hargs⟩

theorem tidies_storyArguments (function : String) {operands : List Operand}
    (hoperands : ∀ operand ∈ operands, operand.WellFormed r) :
    h.Tidies r (fun _ => True) (h.storyArguments function operands) := by
  induction operands with
  | nil => exact tidies_pure trivial
  | cons operand rest ih =>
      obtain ⟨hfirst, hrest⟩ := List.forall_mem_cons.mp hoperands
      refine (tidies_argument hh hr function hfirst).bind fun v _ => ?_
      exact (ih hrest).bind fun _ _ => tidies_pure trivial

theorem tidies_subscript (name : String) (args : List Value) :
    h.Tidies r (fun answer => ∀ v ∈ answer, v.WellFormed r) (h.subscript name args) := by
  unfold Host.subscript
  split
  · split
    · next n _ =>
        refine tidies_get_bind fun s hs => ?_
        rw [hs.store.registry]
        have hspares : ValueFault.Spares (·.WellFormed r) (r.itemByValue name n) := by
          cases hitem : r.itemByValue name n with
          | ok l => exact hr.wellFormed_of_itemByValue hitem
          | error fault =>
              unfold Registry.itemByValue at hitem
              split at hitem
              · cases hitem
                exact fun id h => nomatch h
              · cases hitem
        exact (tidies_ofValue hh hspares).bind fun l hl =>
          tidies_pure (by rintro v ⟨⟩; exact hl)
    · exact tidies_fail hh (by simp)
  · exact tidies_fail hh (by simp)

theorem tidies_callKind (kind : CallKind) (name : String) {operands : List Operand}
    (hoperands : ∀ operand ∈ operands, operand.WellFormed r) :
    h.Tidies r (fun answer => ∀ v ∈ answer, v.WellFormed r) (h.callKind kind name operands) := by
  have hargs := tidies_arguments hh hr name hoperands
  unfold Host.callKind
  split
  · exact hargs.bind fun args hargs => tidies_builtin hh hr _ hargs
  · refine hargs.bind fun args _ s hs => ?_
    obtain ⟨e, hcall, he⟩ := hh.callExternal name args (hs.bare name).2
    rw [hcall]
    exact ⟨he, hs⟩
  · refine (tidies_storyArguments hh hr name hoperands).bind fun args _ s hs => ?_
    obtain ⟨e, hcall, he⟩ := hh.callStory name args (hs.bare name).1
    rw [hcall]
    exact ⟨he, hs⟩
  · exact hargs.bind fun args _ => tidies_subscript hh hr _ _
  · exact tidies_fail hh (by simp)

theorem tidies_call (f : FunctionRef) {operands : List Operand}
    (hoperands : ∀ operand ∈ operands, operand.WellFormed r) :
    h.Tidies r (·.WellFormed r) (h.call f operands) := by
  refine tidies_get_bind fun s _ => ?_
  refine (tidies_callKind hh hr _ _ hoperands).bind fun answer hanswer => tidies_pure ?_
  cases answer with
  | none => trivial
  | some v => exact hanswer v rfl

/-! ## The stack -/

omit hh hr in
/-- Everything on the stack and what was given back is well formed. -/
structure Machine.WellFormed (r : Registry) (m : Machine) : Prop where
  stack : ∀ operand ∈ m.stack, operand.WellFormed r
  returned : ∀ value ∈ m.returned, ∀ v ∈ value, v.WellFormed r

omit hh hr in
theorem Machine.WellFormed.push {m : Machine} (hm : m.WellFormed r) {operand : Operand}
    (hoperand : operand.WellFormed r) : (m.push operand).WellFormed r :=
  ⟨List.forall_mem_cons.mpr ⟨hoperand, hm.stack⟩, hm.returned⟩

theorem tidies_stepOperator (temp : Bool) {m : Machine} (hm : m.WellFormed r) (op : Operator)
    (fixity : Fixity) : h.Tidies r (·.WellFormed r) (h.stepOperator temp m op fixity) := by
  have hstack := hm.stack
  unfold Host.stepOperator
  split
  · split
    · next rhs target rest heq =>
        rw [heq, List.forall_mem_cons, List.forall_mem_cons] at hstack
        obtain ⟨hrhs, _, hrest⟩ := hstack
        exact (tidies_assign hh hr temp op target hrhs).bind fun _ _ =>
          tidies_pure ⟨hrest, hm.returned⟩
    · exact tidies_fail hh (by simp)
  · split
    · split
      · next rhs lhs rest heq =>
          rw [heq, List.forall_mem_cons, List.forall_mem_cons] at hstack
          obtain ⟨hrhs, hlhs, hrest⟩ := hstack
          exact (tidies_applyBinary hh hr op hlhs hrhs).bind fun result hresult =>
            tidies_pure ⟨List.forall_mem_cons.mpr ⟨hresult, hrest⟩, hm.returned⟩
      · exact tidies_fail hh (by simp)
    · split
      · next operand rest heq =>
          rw [heq, List.forall_mem_cons] at hstack
          obtain ⟨hoperand, hrest⟩ := hstack
          exact (tidies_applyUnary hh hr op hoperand).bind fun result hresult =>
            tidies_pure ⟨List.forall_mem_cons.mpr ⟨hresult, hrest⟩, hm.returned⟩
      · exact tidies_fail hh (by simp)

omit hh in
/-- The value on top of the stack. -/
theorem Machine.WellFormed.top {m : Machine} (hm : m.WellFormed r) {s : σ} (hs : h.Tidy r s)
    {v : Value} (hv : m.stack.head?.bind (h.resolve? s) = some v) : v.WellFormed r := by
  obtain ⟨operand, hoperand, hv⟩ := Option.bind_eq_some_iff.mp hv
  exact hs.wellFormed_of_resolve? hr (hm.stack operand (List.mem_of_head? hoperand)) hv

theorem tidies_step (temp : Bool) {m : Machine} (hm : m.WellFormed r) {token : Token}
    (htoken : ∀ l, token = .list l → l.WellFormed r) :
    h.Tidies r (·.WellFormed r) (h.step temp m token) := by
  cases token with
  | bool _ | int _ | float _ | str _ | path _ | ident _ => exact tidies_pure (hm.push trivial)
  | list l =>
      have hl : Operand.WellFormed r (.value (.list l)) := htoken l rfl
      exact tidies_pure (hm.push hl)
  | punct _ => exact tidies_pure hm
  | keyword k =>
      cases k with
      | temp => exact tidies_pure hm
      | ret =>
          refine tidies_get_bind fun s hs => tidies_pure ⟨?_, ?_⟩
          · exact fun operand hoperand => hm.stack operand (List.mem_of_mem_drop hoperand)
          · rintro value ⟨⟩ v hv
            exact hm.top hr hs hv
  | operator op fixity => exact tidies_stepOperator hh hr temp hm op fixity
  | function f =>
      unfold Host.step
      dsimp only
      split
      · exact tidies_fail hh (by simp)
      · refine (tidies_call hh hr f ?_).bind fun result hresult => tidies_pure ⟨?_, hm.returned⟩
        · intro operand hoperand
          exact hm.stack operand (List.mem_of_mem_take (List.mem_reverse.mp hoperand))
        · refine List.forall_mem_cons.mpr ⟨hresult, fun operand hoperand => ?_⟩
          exact hm.stack operand (List.mem_of_mem_drop hoperand)

theorem tidies_run (temp : Bool) {tokens : List Token}
    (htokens : ∀ l, .list l ∈ tokens → l.WellFormed r) {m : Machine} (hm : m.WellFormed r)
    (order : List Nat) : h.Tidies r (·.WellFormed r) (h.run temp tokens m order) := by
  induction order generalizing m with
  | nil => exact tidies_pure hm
  | cons place rest ih =>
      unfold Host.run
      split
      · exact tidies_fail hh (by simp)
      · next token htoken =>
          refine (tidies_step hh hr temp hm ?_).bind fun m hm => ih hm
          rintro l rfl
          exact htokens l (List.mem_of_getElem? htoken)

/-- An evaluation of well-formed literals from a tidy state comes out well. -/
theorem tidies_evaluate {tokens : List Token} (htokens : ∀ l, .list l ∈ tokens → l.WellFormed r)
    (order : List Nat) :
    h.Tidies r (fun evaluation => ∀ v ∈ evaluation.value, v.WellFormed r)
      (h.evaluate tokens order) := by
  have hempty : Machine.WellFormed r {} := ⟨by simp, by simp⟩
  refine (tidies_run hh hr _ htokens hempty order).bind fun m hm => ?_
  refine tidies_get_bind fun s hs => tidies_pure fun v hv => ?_
  unfold Host.outcome at hv
  split at hv
  · next value hvalue => exact hm.returned value hvalue v hv
  · exact hm.top hr hs hv

end Lawful

/-- A host without functions that holds well-formed lists only does so after every
evaluation, whether it succeeds or fails; what is given back is well formed, and a failure is
never that a definition is missing. -/
theorem lists_of_evaluate {h : Host σ ε} (hh : h.Lawful) {r : Registry} (hr : r.Built) {s : σ}
    (hbare : h.IsBare s) (hstore : (h.store s).WellFormed r) {tokens : List Token}
    (htokens : ∀ l, .list l ∈ tokens → l.WellFormed r) (order : List Nat) :
    Ensures (fun evaluation t =>
        (∀ v ∈ evaluation.value, v.WellFormed r) ∧ (h.store t).WellFormed r)
      (fun e t =>
        (∀ id, e ≠ h.fault (.value (.unknownDefinition id))) ∧ (h.store t).WellFormed r)
      (h.evaluate tokens order s) := by
  refine (tidies_evaluate hh hr htokens order s ⟨hstore, hbare⟩).mono ?_ ?_
  · rintro evaluation t ⟨hvalue, ht⟩
    exact ⟨hvalue, ht.store⟩
  · rintro e t ⟨he, ht⟩
    exact ⟨he, ht.store⟩

end Host

/-! ## Sandboxes -/

theorem Sandbox.lawful_host : Sandbox.host.Lawful where
  fault_inj h := h
  store_withStore _ _ := rfl
  store_random _ _ _ := rfl
  store_reseed _ _ := rfl
  bare_withStore _ h := h
  bare_random _ _ _ h := h
  bare_reseed _ _ h := h
  callStory name _ _ _ := ⟨.unknownFunction name, rfl, fun _ h => nomatch h⟩
  callExternal name args s hs := by
    have hnone : s.externals.get? name = none := by
      simpa [Sandbox.host, Table.contains] using hs
    have hcall : s.externals.call name args = .error (.unknownFunction name) := by
      unfold Externals.call
      rw [hnone]
    refine ⟨.unknownFunction name, ?_, fun _ h => nomatch h⟩
    show Sandbox.callExternal name args s = _
    have hget : (get : EStateM ExprFault Sandbox Sandbox) s = .ok s s := rfl
    rw [Sandbox.callExternal, run_of_eq_ok hget, hcall]
    rfl

/-- Three colours. -/
def palette : Registry :=
  ⟨[{ id := ⟨0⟩, name := "Color", entries := [("red", 1), ("green", 2), ("blue", 3)] }]⟩

/-- A sandbox in which a variable holds one of the colours. -/
def painter : Sandbox :=
  { Sandbox.ofSeed 7 with
    store :=
      { globals := Table.insert ∅ "x" (.list (.ofItem ⟨"green", 2, ⟨0⟩⟩)), registry := palette } }

/-- Moving a variable on to the next colour and adding all others to it leaves well-formed
lists. -/
theorem lists_of_painter :
    palette.Built ∧ Sandbox.host.IsBare painter ∧ painter.store.WellFormed palette ∧
      Ensures (fun evaluation t =>
          (∀ v ∈ evaluation.value, v.WellFormed palette) ∧ t.store.WellFormed palette)
        (fun e t =>
          (∀ id, e ≠ .value (.unknownDefinition id)) ∧ t.store.WellFormed palette)
        (Sandbox.host.evaluate
          [.ident "x", .operator .addAssign .between,
            .function { name := "LIST_INVERT", kind := .builtin .listInvert, arity := 1 },
            .punct .opening, .ident "x", .operator .increment .after, .punct .closing]
          [0, 4, 5, 2, 1] painter) := by
  have hbuilt : palette.Built := .define .empty rfl
  have hgreen : palette.Declares ⟨"green", 2, ⟨0⟩⟩ :=
    ⟨_, rfl, List.mem_cons_of_mem _ List.mem_cons_self⟩
  have hbare : Sandbox.host.IsBare painter := fun _ => ⟨rfl, rfl⟩
  have hnone : (∅ : Table String Value).WellFormed palette := fun _ _ h => nomatch h
  have hgreens : Value.WellFormed palette (.list (.ofItem ⟨"green", 2, ⟨0⟩⟩)) :=
    Selection.wellFormed_ofItem hgreen
  have hstore : painter.store.WellFormed palette :=
    ⟨rfl, hnone.insert "x" hgreens, hnone, List.forall_mem_singleton.mpr hnone⟩
  exact ⟨hbuilt, hbare, hstore,
    Host.lists_of_evaluate Sandbox.lawful_host hbuilt hbare hstore (by simp) _⟩

end Skein
