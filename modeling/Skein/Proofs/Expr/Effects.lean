import Skein.Expr.Evaluate
import Skein.Proofs.Coupling

set_option autoImplicit false

/-!
# Expr: what an evaluation does to its host

An evaluation looks at its host in few ways, and changes it in few ways: it writes and declares
variables, draws and reseeds the randomness, and calls functions back.  A coupling that all of
these follow is followed by every evaluation, whatever its tokens and their order; and so a
contract that all of these honour is honoured by every evaluation.

Running out of operands is kept apart from the other failures: only the stack can raise it,
and the operations on operands never do.
-/

namespace Skein

variable {σ ε : Type}

/-! ## What an evaluation sees -/

/-- Two states of the host look the same to an evaluation. -/
structure Host.LooksLike (h : Host σ ε) (s t : σ) : Prop where
  store : h.store s = h.store t
  readCount : h.readCount s = h.readCount t
  turnsSince : h.turnsSince s = h.turnsSince t
  turnIndex : h.turnIndex s = h.turnIndex t
  choiceCount : h.choiceCount s = h.choiceCount t
  isStoryFunction : h.isStoryFunction s = h.isStoryFunction t
  isExternal : h.isExternal s = h.isExternal t

namespace Host.LooksLike

variable {h : Host σ ε} {s t : σ}

theorem refl (s : σ) : h.LooksLike s s := ⟨rfl, rfl, rfl, rfl, rfl, rfl, rfl⟩

theorem resolve?_eq (hst : h.LooksLike s t) : h.resolve? s = h.resolve? t := by
  funext operand
  cases operand with
  | ident name =>
      show h.fetch? s name = h.fetch? t name
      rw [Host.fetch?, Host.fetch?, hst.store, hst.readCount]
  | value _ | path _ | absent => rfl

theorem callKindOf_eq (hst : h.LooksLike s t) : h.callKindOf s = h.callKindOf t := by
  have hkind : h.kindOf s = h.kindOf t := by
    funext name
    rw [Host.kindOf, Host.kindOf, hst.store, hst.isStoryFunction, hst.isExternal]
  funext f
  rw [Host.callKindOf, Host.callKindOf, hkind]

theorem outcome_eq (hst : h.LooksLike s t) : h.outcome s = h.outcome t := by
  funext m
  rw [Host.outcome, Host.outcome, hst.resolve?_eq]

end Host.LooksLike

/-- The ways in which an evaluation looks at its host, changes it, or fails by itself, follow a
coupling. -/
structure Host.Couples (h : Host σ ε) (k : Coupling ε σ) : Prop where
  fail : ∀ {fault : ExprFault}, fault ≠ .stackUnderflow →
    ∀ s t, k.same s t → k.failed (h.fault fault) s t
  looks : ∀ {s t : σ}, k.same s t → h.LooksLike s t
  set : ∀ {s t : σ} {name : String} {value : Value} {store : Store}, k.same s t →
    (h.store s).set name value = .ok store → k.same (h.withStore s store) (h.withStore t store)
  declare : ∀ {s t : σ} (name : String) (value : Value), k.same s t →
    k.same (h.withStore s ((h.store s).declareTemporary name value))
      (h.withStore t ((h.store t).declareTemporary name value))
  random : ∀ (low high : Int64) (s t : σ), k.same s t →
    (h.random low high s).1 = (h.random low high t).1 ∧
      k.same (h.random low high s).2 (h.random low high t).2
  reseed : ∀ (seed : UInt64) (s t : σ), k.same s t → k.same (h.reseed seed s) (h.reseed seed t)
  callStory : ∀ name args, k.Holds (h.callStory name args)
  callExternal : ∀ name args, k.Holds (h.callExternal name args)

namespace Host.Couples

variable {h : Host σ ε} {k : Coupling ε σ} (hk : h.Couples k)

include hk

open Coupling Outcome

/-! ## Reading and writing -/

theorem holds_fail {α : Type} {fault : ExprFault} (hf : fault ≠ .stackUnderflow) :
    k.Holds (h.fail fault : EStateM ε σ α) :=
  holds_throw (hk.fail hf)

theorem holds_ofValue {α : Type} (r : Except ValueFault α) :
    k.Holds (h.ofValue r : EStateM ε σ α) := by
  cases r with
  | ok a => exact holds_pure a
  | error fault => exact hk.holds_fail (by simp)

theorem holds_getStore : k.Holds (h.getStore : EStateM ε σ Store) :=
  holds_get_bind (fun _ _ hst => by rw [(hk.looks hst).store]) fun s => holds_pure (h.store s)

theorem holds_setVariable (name : String) (value : Value) :
    k.Holds (h.setVariable name value : EStateM ε σ Unit) := by
  refine ⟨fun s t hst => ?_⟩
  have hget (s : σ) : (h.getStore : EStateM ε σ Store) s = .ok (h.store s) s := rfl
  rw [Host.setVariable, run_of_eq_ok (hget s), run_of_eq_ok (hget t), ← (hk.looks hst).store]
  cases hset : (h.store s).set name value with
  | ok store => exact ⟨rfl, hk.set hst hset⟩
  | error fault =>
      refine (hk.holds_fail ?_).alike s t hst
      -- A write fails only on constants.
      rintro rfl
      simp only [Store.set] at hset
      split at hset
      · simp at hset
      · split at hset
        · simp at hset
        · split at hset <;> simp at hset

theorem holds_declareTemporary (name : String) (value : Value) :
    k.Holds (h.declareTemporary name value : EStateM ε σ Unit) :=
  ⟨fun _ _ hst => ⟨rfl, hk.declare name value hst⟩⟩

theorem holds_missing {α : Type} (operand : Operand) (op : String) :
    k.Holds (h.missing operand op : EStateM ε σ α) := by
  unfold Host.missing
  split <;> exact hk.holds_fail (by simp)

theorem holds_require (operand : Operand) (op : String) :
    k.Holds (h.require operand op : EStateM ε σ Value) := by
  refine holds_get_bind (fun _ _ hst => by rw [(hk.looks hst).resolve?_eq]) fun s => ?_
  split
  · exact holds_pure _
  · exact hk.holds_missing operand op

/-! ## Operators -/

theorem holds_applyMissing (op : Operator) (binary : Binary) (lhs rhs : Operand)
    (l r : Option Value) : k.Holds (h.applyMissing op binary lhs rhs l r) := by
  unfold Host.applyMissing
  split
  · exact holds_pure _
  · exact holds_pure _
  · split
    · exact holds_pure _
    · split <;> exact hk.holds_missing _ _

theorem holds_applyBinary (op : Operator) (lhs rhs : Operand) :
    k.Holds (h.applyBinary op lhs rhs) := by
  unfold Host.applyBinary
  split
  · exact hk.holds_fail (by simp)
  · refine holds_get_bind (fun _ _ hst => ?_) fun s => ?_
    · rw [(hk.looks hst).resolve?_eq, (hk.looks hst).store]
    split
    · refine (hk.holds_ofValue _).bind fun answer => ?_
      split
      · exact holds_pure _
      · split
        · exact holds_pure _
        · exact hk.holds_fail (by simp)
    · exact hk.holds_applyMissing _ _ _ _ _ _

theorem holds_storeStep (unary : Unary) (operand : Operand) (result : Value) :
    k.Holds (h.storeStep unary operand result) := by
  unfold Host.storeStep
  split
  · exact hk.holds_setVariable _ _
  · exact hk.holds_setVariable _ _
  · exact holds_pure _

theorem holds_applyUnary (op : Operator) (operand : Operand) :
    k.Holds (h.applyUnary op operand) := by
  unfold Host.applyUnary
  split
  · exact hk.holds_fail (by simp)
  · refine holds_get_bind (fun _ _ hst => ?_) fun s => ?_
    · rw [(hk.looks hst).resolve?_eq, (hk.looks hst).store]
    split
    · split
      · exact holds_pure _
      · exact hk.holds_missing _ _
    · refine (hk.holds_ofValue _).bind fun answer => ?_
      split
      · exact hk.holds_fail (by simp)
      · exact (hk.holds_storeStep _ _ _).bind fun _ => holds_pure _

theorem holds_assigned (op : Operator) (name : String) (value : Value) :
    k.Holds (h.assigned op name value) := by
  unfold Host.assigned
  split
  · exact holds_pure _
  · refine (hk.holds_require _ _).bind fun current => ?_
    refine hk.holds_getStore.bind fun store => ?_
    refine (hk.holds_ofValue _).bind fun answer => ?_
    split
    · exact holds_pure _
    · exact hk.holds_fail (by simp)

theorem holds_assign (temp : Bool) (op : Operator) (target rhs : Operand) :
    k.Holds (h.assign temp op target rhs) := by
  unfold Host.assign
  split
  · refine (hk.holds_require _ _).bind fun value => ?_
    refine (hk.holds_assigned _ _ _).bind fun value => ?_
    split
    · exact hk.holds_declareTemporary _ _
    · exact hk.holds_setVariable _ _
  · exact hk.holds_fail (by simp)

/-! ## Built-in functions -/

theorem holds_intArg (b : Builtin) (v : Value) : k.Holds (b.intArg h v) := by
  unfold Builtin.intArg
  split
  · exact holds_pure _
  · exact hk.holds_fail (by simp)

theorem holds_floatArg (b : Builtin) (v : Value) : k.Holds (b.floatArg h v) := by
  unfold Builtin.floatArg
  split
  · exact holds_pure _
  · exact hk.holds_fail (by simp)

theorem holds_listArg (b : Builtin) (v : Value) : k.Holds (b.listArg h v) := by
  unfold Builtin.listArg
  split
  · exact holds_pure _
  · exact hk.holds_fail (by simp)

theorem holds_pathArg (b : Builtin) (v : Value) : k.Holds (b.pathArg h v) := by
  unfold Builtin.pathArg
  split
  · exact holds_pure _
  · exact hk.holds_fail (by simp)

theorem holds_spelledArg (b : Builtin) (s : String) : k.Holds (b.spelledArg h s) := by
  unfold Builtin.spelledArg
  split
  · exact holds_pure _
  · exact hk.holds_fail (by simp)

theorem holds_sectionCount (b : Builtin) {count : σ → String → Option Int64}
    (hcount : ∀ {s t}, k.same s t → count s = count t) (path : String) :
    k.Holds (b.sectionCount h count path) := by
  refine holds_get_bind (fun _ _ hst => by rw [hcount hst]) fun s => ?_
  split
  · exact holds_pure _
  · exact hk.holds_fail (by simp)

theorem holds_draw (low high : Int64) : k.Holds (Builtin.draw h low high) :=
  holds_modifyGet (hk.random low high)

theorem holds_isBelow (a b : Value) : k.Holds (Builtin.isBelow h a b) := by
  refine hk.holds_getStore.bind fun store => ?_
  exact (hk.holds_ofValue _).bind fun answer => holds_pure _

theorem holds_builtin_nil (b : Builtin) : k.Holds (b.call h []) := by
  cases b with
  | turns =>
      exact holds_get_bind (fun _ _ hst => by rw [(hk.looks hst).turnIndex]) fun _ => holds_pure _
  | choiceCount =>
      exact holds_get_bind (fun _ _ hst => by rw [(hk.looks hst).choiceCount]) fun _ => holds_pure _
  | random | seedRandom | int | float | floor | ceiling | pow | min | max | turnsSince
  | readCount | listCount | listMin | listMax | listAll | listInvert | listRange | listValue
  | listRandom => exact hk.holds_fail (by simp)

theorem holds_builtin_one (b : Builtin) (v : Value) : k.Holds (b.call h [v]) := by
  cases b with
  | seedRandom =>
      refine (hk.holds_intArg _ _).bind fun seed => ?_
      exact (holds_modify (hk.reseed _)).bind fun _ => holds_pure _
  | int =>
      cases v with
      | string s => exact (hk.holds_spelledArg _ _).bind fun x => holds_pure _
      | bool _ | int _ | float _ | list _ =>
          exact (hk.holds_intArg _ _).bind fun n => holds_pure _
  | float =>
      cases v with
      | string s => exact (hk.holds_spelledArg _ _).bind fun x => holds_pure _
      | bool _ | int _ | float _ | list _ =>
          exact (hk.holds_floatArg _ _).bind fun x => holds_pure _
  | floor | ceiling =>
      cases v with
      | float x => exact holds_pure _
      | bool _ | int _ | string _ | list _ =>
          exact (hk.holds_intArg _ _).bind fun n => holds_pure _
  | turnsSince =>
      refine (hk.holds_pathArg _ _).bind fun path => ?_
      refine (hk.holds_sectionCount _ (fun hst => ?_) _).bind fun n => holds_pure _
      exact (hk.looks hst).turnsSince
  | readCount =>
      cases v with
      | int n => exact holds_pure _
      | bool _ | float _ | string _ | list _ =>
          refine (hk.holds_pathArg _ _).bind fun path => ?_
          refine (hk.holds_sectionCount _ (fun hst => ?_) _).bind fun n => holds_pure _
          exact (hk.looks hst).readCount
  | listCount | listMin | listMax | listValue =>
      exact (hk.holds_listArg _ _).bind fun l => holds_pure _
  | listAll | listInvert =>
      refine (hk.holds_listArg _ _).bind fun l => hk.holds_getStore.bind fun store => ?_
      exact (hk.holds_ofValue _).bind fun items => holds_pure _
  | listRandom =>
      refine (hk.holds_listArg _ _).bind fun l => ?_
      split
      · exact holds_pure _
      · exact (hk.holds_draw _ _).bind fun place => holds_pure _
  | random | pow | min | max | turns | choiceCount | listRange => exact hk.holds_fail (by simp)

theorem holds_builtin_two (b : Builtin) (v w : Value) : k.Holds (b.call h [v, w]) := by
  cases b with
  | random =>
      refine (hk.holds_intArg _ _).bind fun low => (hk.holds_intArg _ _).bind fun high => ?_
      split
      · exact hk.holds_fail (by simp)
      · exact (hk.holds_draw _ _).bind fun n => holds_pure _
  | pow =>
      refine (hk.holds_floatArg _ _).bind fun base => ?_
      exact (hk.holds_floatArg _ _).bind fun exponent => holds_pure _
  | min | max => exact (hk.holds_isBelow _ _).bind fun below => holds_pure _
  | int | float | floor | ceiling | readCount => cases v <;> exact hk.holds_fail (by simp)
  | seedRandom | turns | turnsSince | choiceCount | listCount | listMin | listMax | listAll
  | listInvert | listRange | listValue | listRandom => exact hk.holds_fail (by simp)

theorem holds_builtin_three (b : Builtin) (u v w : Value) : k.Holds (b.call h [u, v, w]) := by
  cases b with
  | listRange =>
      refine (hk.holds_listArg _ _).bind fun l => (hk.holds_intArg _ _).bind fun low => ?_
      exact (hk.holds_intArg _ _).bind fun high => holds_pure _
  | int | float | floor | ceiling | readCount => cases u <;> exact hk.holds_fail (by simp)
  | random | seedRandom | pow | min | max | turns | turnsSince | choiceCount | listCount
  | listMin | listMax | listAll | listInvert | listValue | listRandom =>
      exact hk.holds_fail (by simp)

theorem holds_builtin (b : Builtin) (args : List Value) : k.Holds (b.call h args) := by
  match args with
  | [] => exact hk.holds_builtin_nil b
  | [v] => exact hk.holds_builtin_one b v
  | [v, w] => exact hk.holds_builtin_two b v w
  | [u, v, w] => exact hk.holds_builtin_three b u v w
  | v :: _ :: _ :: _ :: _ =>
      -- No built-in function takes as many arguments.
      cases b with
      | int | float | floor | ceiling | readCount => cases v <;> exact hk.holds_fail (by simp)
      | random | seedRandom | pow | min | max | turns | turnsSince | choiceCount | listCount
      | listMin | listMax | listAll | listInvert | listRange | listValue | listRandom =>
          exact hk.holds_fail (by simp)

/-! ## Calls -/

theorem holds_argument (function : String) (operand : Operand) :
    k.Holds (h.argument function operand) := by
  refine holds_get_bind (fun _ _ hst => by rw [(hk.looks hst).resolve?_eq]) fun s => ?_
  split
  · exact holds_pure _
  · split <;> exact hk.holds_fail (by simp)

theorem holds_arguments (function : String) (operands : List Operand) :
    k.Holds (h.arguments function operands) := by
  induction operands with
  | nil => exact holds_pure _
  | cons operand rest ih =>
      exact (hk.holds_argument _ _).bind fun v => ih.bind fun vs => holds_pure _

theorem holds_storyArguments (function : String) (operands : List Operand) :
    k.Holds (h.storyArguments function operands) := by
  induction operands with
  | nil => exact holds_pure _
  | cons operand rest ih =>
      exact (hk.holds_argument _ _).bind fun v => ih.bind fun args => holds_pure _

theorem holds_subscript (name : String) (args : List Value) :
    k.Holds (h.subscript name args) := by
  unfold Host.subscript
  split
  · split
    · refine hk.holds_getStore.bind fun store => ?_
      exact (hk.holds_ofValue _).bind fun l => holds_pure _
    · exact hk.holds_fail (by simp)
  · exact hk.holds_fail (by simp)

theorem holds_callKind (kind : CallKind) (name : String) (operands : List Operand) :
    k.Holds (h.callKind kind name operands) := by
  unfold Host.callKind
  split
  · exact (hk.holds_arguments _ _).bind fun args => hk.holds_builtin _ _
  · exact (hk.holds_arguments _ _).bind fun args => hk.callExternal _ _
  · exact (hk.holds_storyArguments _ _).bind fun args => hk.callStory _ _
  · exact (hk.holds_arguments _ _).bind fun args => hk.holds_subscript _ _
  · exact hk.holds_fail (by simp)

theorem holds_call (f : FunctionRef) (operands : List Operand) :
    k.Holds (h.call f operands) := by
  refine holds_get_bind (fun _ _ hst => by rw [(hk.looks hst).callKindOf_eq]) fun s => ?_
  exact (hk.holds_callKind _ _ _).bind fun answer => holds_pure _

/-! ## The stack -/

section Stack

variable (hunderflow : ∀ s t, k.same s t → k.failed (h.fault .stackUnderflow) s t)

include hunderflow

theorem holds_stepOperator (temp : Bool) (m : Machine) (op : Operator) (fixity : Fixity) :
    k.Holds (h.stepOperator temp m op fixity) := by
  unfold Host.stepOperator
  split
  · split
    · exact (hk.holds_assign _ _ _ _).bind fun _ => holds_pure _
    · exact holds_throw hunderflow
  · split
    · split
      · exact (hk.holds_applyBinary _ _ _).bind fun result => holds_pure _
      · exact holds_throw hunderflow
    · split
      · exact (hk.holds_applyUnary _ _).bind fun result => holds_pure _
      · exact holds_throw hunderflow

theorem holds_step (temp : Bool) (m : Machine) (token : Token) :
    k.Holds (h.step temp m token) := by
  cases token with
  | bool _ | int _ | float _ | str _ | list _ | path _ | ident _ | punct _ =>
      exact holds_pure _
  | keyword k =>
      cases k with
      | temp => exact holds_pure _
      | ret =>
          exact holds_get_bind (fun _ _ hst => by rw [(hk.looks hst).resolve?_eq])
            fun _ => holds_pure _
  | operator op fixity => exact hk.holds_stepOperator hunderflow temp m op fixity
  | function f =>
      unfold Host.step
      simp only
      split
      · exact holds_throw hunderflow
      · exact (hk.holds_call _ _).bind fun result => holds_pure _

theorem holds_run (temp : Bool) (tokens : List Token) (m : Machine) (order : List Nat) :
    k.Holds (h.run temp tokens m order) := by
  induction order generalizing m with
  | nil => exact holds_pure m
  | cons place rest ih =>
      unfold Host.run
      split
      · exact holds_throw hunderflow
      · exact (hk.holds_step hunderflow _ _ _).bind fun m => ih m

/-- An evaluation follows what its host follows. -/
theorem holds_evaluate (tokens : List Token) (order : List Nat) :
    k.Holds (h.evaluate tokens order) := by
  refine (hk.holds_run hunderflow _ _ _ _).bind fun m => ?_
  exact holds_get_bind (fun _ _ hst => by rw [(hk.looks hst).outcome_eq]) fun _ => holds_pure _

end Stack

end Host.Couples

/-! ## Contracts -/

/-- The ways in which an evaluation changes its host, or fails by itself, honour a
contract. -/
structure Host.Honours (h : Host σ ε) (c : Contract ε σ) : Prop where
  fail : ∀ {fault : ExprFault}, fault ≠ .stackUnderflow → ∀ s, c.failed s (h.fault fault) s
  set : ∀ {s : σ} {name : String} {value : Value} {store : Store},
    (h.store s).set name value = .ok store → c.kept s (h.withStore s store)
  declare : ∀ (s : σ) (name : String) (value : Value),
    c.kept s (h.withStore s ((h.store s).declareTemporary name value))
  random : ∀ (low high : Int64) (s : σ), c.kept s (h.random low high s).2
  reseed : ∀ (seed : UInt64) (s : σ), c.kept s (h.reseed seed s)
  callStory : ∀ name args, c.Holds (h.callStory name args)
  callExternal : ∀ name args, c.Holds (h.callExternal name args)

namespace Host.Honours

variable {h : Host σ ε} {c : Contract ε σ}

theorem couples (hc : h.Honours c) (start : σ) : h.Couples (c.coupling start) where
  fail := by
    rintro fault hfault s _ ⟨rfl, hs⟩
    exact ⟨rfl, c.failed_trans hs (hc.fail hfault s)⟩
  looks := by
    rintro s _ ⟨rfl, _⟩
    exact .refl s
  set := by
    rintro s _ name value store ⟨rfl, hs⟩ hset
    exact ⟨rfl, c.trans hs (hc.set hset)⟩
  declare := by
    rintro s _ name value ⟨rfl, hs⟩
    exact ⟨rfl, c.trans hs (hc.declare s name value)⟩
  random := by
    rintro low high s _ ⟨rfl, hs⟩
    exact ⟨rfl, rfl, c.trans hs (hc.random low high s)⟩
  reseed := by
    rintro seed s _ ⟨rfl, hs⟩
    exact ⟨rfl, c.trans hs (hc.reseed seed s)⟩
  callStory name args := (hc.callStory name args).coupling start
  callExternal name args := (hc.callExternal name args).coupling start

/-- What follows every coupling that the host follows honours every contract that it honours. -/
theorem holds {α : Type} {x : EStateM ε σ α} (hc : h.Honours c)
    (hx : ∀ {k : Coupling ε σ}, h.Couples k → k.Holds x) : c.Holds x :=
  Contract.holds_of_coupling fun start => hx (hc.couples start)

end Host.Honours

end Skein
