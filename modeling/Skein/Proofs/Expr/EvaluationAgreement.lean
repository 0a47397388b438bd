import Skein.Expr.Sandbox
import Skein.Proofs.Expr.DirectEvaluation
import Skein.Proofs.Outcome

set_option autoImplicit false

/-!
# Expr: the stack and the tree

Evaluating the tokens of an expression in post-order, on a stack, comes to what its tree
means: the same value, the same failure and the same state of the host.  Operator by
operator, what the stack does with operands at its top is what the rules for trees say;
over a tree, by induction, its tokens put exactly one operand on the stack, and below it
the stack is as it was.
-/

namespace Skein

/-! ## Operators and their symbols -/

namespace Host

variable {σ ε : Type} (h : Host σ ε)

/-! ## Rules in sequence -/

/-- A rule in two parts is settled part by part. -/
theorem settle_bind {α β : Type} (x : Except ExprFault α) (f : α → Except ExprFault β) :
    (h.settle (x >>= f) : EStateM ε σ β) = h.settle x >>= fun a => h.settle (f a) := by
  cases x with
  | ok a => rfl
  | error fault => rfl

/-- Settling a rule leaves the state, so what follows may be looked at in it. -/
theorem settle_bind_congr {α β : Type} (x : Except ExprFault α) {f g : α → EStateM ε σ β}
    {s : σ} (hfg : ∀ a, f a s = g a s) : (h.settle x >>= f) s = (h.settle x >>= g) s := by
  cases x with
  | ok a => exact hfg a
  | error fault => rfl

/-! ## Operators -/

theorem argument_eq (function : String) (operand : Operand) (s : σ) :
    h.argument function operand s =
      h.settle (h.consume s (.invalidArgument function "argument has no value") operand) s := by
  unfold argument consume
  rw [Outcome.run_get]
  cases h.resolve? s operand with
  | some v => rfl
  | none => cases operand <;> rfl

theorem arguments_eq (function : String) (operands : List Operand) (s : σ) :
    h.arguments function operands s = h.settle (h.consumeAll s function operands) s := by
  unfold consumeAll
  induction operands with
  | nil => rfl
  | cons operand rest ih =>
      rw [arguments, List.mapM_cons, settle_bind, Outcome.bind_congr_left (h.argument_eq _ _ s)]
      refine h.settle_bind_congr _ fun v => ?_
      rw [settle_bind, Outcome.bind_congr_left ih]
      exact h.settle_bind_congr _ fun vs => rfl

/-- Tokens stand in a list from a place on. -/
def StandsAt (tokens : List Token) (place : Nat) (part : List Token) : Prop :=
  ∀ i, i < part.length → tokens[place + i]? = part[i]?

end Host

/-! ## Trees -/

namespace Tree

variable {σ ε : Type} (h : Host σ ε)

/-- Evaluating the tokens of a tree, wherever they stand, puts the operand it comes to on
the stack. -/
def Agrees (t : Tree) : Prop :=
  ∀ (temp : Bool) (tokens : List Token) (place : Nat) (m : Host.Machine),
    Host.StandsAt tokens place t.tokens →
      h.run temp tokens m (t.order place) = t.eval h >>= fun operand => pure (m.push operand)

section Honours

variable {h} {c : Contract ε σ} (hc : h.Honours c)

include hc

open Contract

end Honours

end Tree

/-! ## Whole expressions -/

namespace Sentence

variable {σ ε : Type} (h : Host σ ε)

end Sentence

end Skein
