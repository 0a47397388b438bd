import Skein.Proofs.Outcome

set_option autoImplicit false

/-!
# Contracts of computations

A computation with state and failures may promise something of the state it leaves, both
when it succeeds and when it fails.  A contract is such a promise in a form that composes:
what is kept from one state to the next is reflexive and transitive, and a failure after
something was kept is a failure of the whole.  So a computation honours a contract as soon
as each of its parts does, and the parts are looked at one by one.
-/

namespace Skein

/-- What holds between the state before a computation and the state it leaves. -/
structure Contract (ε σ : Type) where
  /-- When the computation succeeds. -/
  kept : σ → σ → Prop
  /-- When it fails for a reason. -/
  failed : σ → ε → σ → Prop
  refl : ∀ s, kept s s
  trans : ∀ {s t u}, kept s t → kept t u → kept s u
  failed_trans : ∀ {s t e u}, kept s t → failed t e u → failed s e u

namespace Contract

variable {ε σ α β : Type} (c : Contract ε σ)

/-- What the contract says of one outcome. -/
def Allows (s : σ) (result : EStateM.Result ε σ α) : Prop :=
  Outcome.Ensures (fun _ t => c.kept s t) (c.failed s) result

/-- The computation honours the contract from every state. -/
structure Holds (x : EStateM ε σ α) : Prop where
  allows : ∀ s, c.Allows s (x s)

variable {c}

theorem holds_pure (a : α) : c.Holds (pure a : EStateM ε σ α) := ⟨fun s => c.refl s⟩

theorem holds_get : c.Holds (get : EStateM ε σ σ) := ⟨fun s => c.refl s⟩

theorem holds_throw {e : ε} (h : ∀ s, c.failed s e s) : c.Holds (throw e : EStateM ε σ α) := ⟨h⟩

theorem holds_modify {f : σ → σ} (h : ∀ s, c.kept s (f s)) :
    c.Holds (modify f : EStateM ε σ PUnit) := ⟨h⟩

theorem Holds.bind {x : EStateM ε σ α} {f : α → EStateM ε σ β} (hx : c.Holds x)
    (hf : ∀ a, c.Holds (f a)) : c.Holds (x >>= f) := by
  refine ⟨fun s => Outcome.Ensures.bind ((hx.allows s).mono ?_ fun _ _ h => h)⟩
  intro a t hfirst
  refine ((hf a).allows t).mono ?_ ?_
  · intro b u hsecond
    exact c.trans hfirst hsecond
  · intro e u hsecond
    exact c.failed_trans hfirst hsecond

theorem Holds.map {x : EStateM ε σ α} (hx : c.Holds x) (f : α → β) :
    c.Holds (f <$> x) := by
  rw [← bind_pure_comp]
  exact hx.bind fun a => holds_pure (f a)

theorem holds_forM {f : α → EStateM ε σ PUnit} (hf : ∀ a, c.Holds (f a)) (items : List α) :
    c.Holds (items.forM f) := by
  induction items with
  | nil => exact holds_pure _
  | cons item rest ih => exact (hf item).bind fun _ => ih

end Contract

end Skein
