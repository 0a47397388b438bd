import Skein.Proofs.Contract

set_option autoImplicit false

/-!
# Couplings of computations

A computation that looks at part of the state only cannot tell two states apart that agree there.
Run from both, it gives the same answers and leaves two states that agree there again.  A coupling
says which pairs of states are meant.  A computation follows it as soon as each of its parts does,
as with contracts; only where a part looks at the state it has to be said that both sides see the
same.

A contract is a coupling in disguise: its pairs are two copies of one state, kept from where the
computation began.  So what follows every coupling of a kind honours every contract of that kind.
-/

namespace Skein

open Outcome

/-- Which states are taken for one another, and which may be left by a failure. -/
structure Coupling (ε σ : Type) where
  same : σ → σ → Prop
  failed : ε → σ → σ → Prop

namespace Coupling

variable {ε σ α β : Type} {k : Coupling ε σ}

/-- From two states that are taken for one another the computation comes out alike. -/
structure Holds (k : Coupling ε σ) (x : EStateM ε σ α) : Prop where
  alike : ∀ s t, k.same s t → Alike (fun _ => k.same) k.failed (x s) (x t)

theorem holds_pure (a : α) : k.Holds (pure a : EStateM ε σ α) := ⟨fun _ _ hst => ⟨rfl, hst⟩⟩

theorem holds_throw {e : ε} (h : ∀ s t, k.same s t → k.failed e s t) :
    k.Holds (throw e : EStateM ε σ α) := ⟨fun s t hst => ⟨rfl, h s t hst⟩⟩

theorem holds_modify {f : σ → σ} (h : ∀ s t, k.same s t → k.same (f s) (f t)) :
    k.Holds (modify f : EStateM ε σ PUnit) := ⟨fun s t hst => ⟨rfl, h s t hst⟩⟩

theorem holds_modifyGet {f : σ → α × σ}
    (h : ∀ s t, k.same s t → (f s).1 = (f t).1 ∧ k.same (f s).2 (f t).2) :
    k.Holds (modifyGet f : EStateM ε σ α) := ⟨h⟩

theorem Holds.bind {x : EStateM ε σ α} {f : α → EStateM ε σ β} (hx : k.Holds x)
    (hf : ∀ a, k.Holds (f a)) : k.Holds (x >>= f) := by
  refine ⟨fun s t hst => Alike.bind ((hx.alike s t hst).mono ?_ fun _ _ _ h => h)⟩
  intro a s t hst
  exact (hf a).alike s t hst

/-- A look at the state is followed by the same thing on both sides. -/
theorem holds_get_bind {f : σ → EStateM ε σ β} (hsame : ∀ s t, k.same s t → f s = f t)
    (hf : ∀ s, k.Holds (f s)) : k.Holds (get >>= f) := by
  refine ⟨fun s t hst => ?_⟩
  show Alike _ _ (f s s) (f t t)
  rw [hsame s t hst]
  exact (hf t).alike s t hst

theorem holds_forM {f : α → EStateM ε σ PUnit} {items : List α}
    (hf : ∀ item ∈ items, k.Holds (f item)) : k.Holds (items.forM f) := by
  induction items with
  | nil => exact holds_pure _
  | cons item rest ih =>
      obtain ⟨hitem, hrest⟩ := List.forall_mem_cons.mp hf
      exact hitem.bind fun _ => ih hrest

end Coupling

namespace Contract

variable {ε σ α : Type} {c : Contract ε σ}

/-- Two copies of one state, kept from a given one. -/
def coupling (c : Contract ε σ) (start : σ) : Coupling ε σ where
  same s t := s = t ∧ c.kept start s
  failed e s t := s = t ∧ c.failed start e s

theorem Holds.coupling {x : EStateM ε σ α} (hx : c.Holds x) (start : σ) :
    (c.coupling start).Holds x := by
  refine ⟨?_⟩
  rintro s _ ⟨rfl, hs⟩
  have hallowed := hx.allows s
  cases hrun : x s with
  | ok a t =>
      rw [hrun] at hallowed
      exact ⟨rfl, rfl, c.trans hs hallowed⟩
  | error e t =>
      rw [hrun] at hallowed
      exact ⟨rfl, rfl, c.failed_trans hs hallowed⟩

theorem holds_of_coupling {x : EStateM ε σ α} (hx : ∀ start, (c.coupling start).Holds x) :
    c.Holds x := by
  refine ⟨fun s => ?_⟩
  have halike := (hx s).alike s s ⟨rfl, c.refl s⟩
  cases hrun : x s with
  | ok a t =>
      rw [hrun] at halike
      exact halike.2.2
  | error e t =>
      rw [hrun] at halike
      exact halike.2.2

end Contract

end Skein
