import Skein.Proofs.Expr.Effects
import Skein.Proofs.Expr.Tree

set_option autoImplicit false

/-!
# Expr: evaluating a tree directly

What an expression means, said on its tree and without a stack: each part is evaluated to
an operand, parts from left to right, and a variable is read when an operator or a call
consumes it and not before.  The rules for operands without a value are written down per
class of operator:

* logical operators take them as false, and so does a negation;
* comparisons pass them on;
* every other operator, an assignment and a call fail, at the first operand without a
  value.

The stack is then compared with this meaning, first operator by operator and then over
whole trees.
-/

namespace Skein

/-- The operand that a literal, a path or a variable stands for. -/
def Atom.operand : Atom → Operand
  | ⟨.bool b, _⟩ => .value (.bool b)
  | ⟨.int n, _⟩ => .value (.int n)
  | ⟨.float x, _⟩ => .value (.float x)
  | ⟨.str s, _⟩ => .value (.string s)
  | ⟨.list l, _⟩ => .value (.list l)
  | ⟨.path p, _⟩ => .path p
  | ⟨.ident name, _⟩ => .ident name

/-- What an operator before its operand computes. -/
def LeadingOp.unary (op : LeadingOp) : Unary := op.1.unary?.get op.2

/-- What an operator after its operand computes. -/
def TrailingOp.unary (op : TrailingOp) : Unary :=
  if op.1 = .increment then .increment else .decrement

namespace Host

variable {σ ε : Type} (h : Host σ ε)

/-! ## Consuming operands -/

/-- Goes on with the outcome of a rule that only looks at the state. -/
def settle {α : Type} : Except ExprFault α → EStateM ε σ α
  | .ok a => pure a
  | .error fault => h.fail fault

/-- The value of an operand that is consumed.  A variable without a value is undefined;
anything else without one fails in the way given. -/
def consume (s : σ) (otherwise : ExprFault) (operand : Operand) : Except ExprFault Value :=
  match h.resolve? s operand, operand with
  | some v, _ => .ok v
  | none, .ident name => .error (.undefinedVariable name)
  | none, _ => .error otherwise

/-- Whether an operand is true; without a value it is not. -/
def holds (s : σ) (operand : Operand) : Bool := (h.resolve? s operand).any Value.isTruthy

/-- The result of an operator on two values, with the failure if it has none. -/
def combine (s : σ) (binary : Binary) (symbol : String) (l r : Value) :
    Except ExprFault Value := do
  match ← (binary.apply l r (h.store s).registry).mapError .value with
  | some v => .ok v
  | none => .error (.typeMismatch symbol l.kind r.kind)

/-! ## Meaning of the operators -/

/-- An operator between two operands that is not an assignment. -/
def joined (s : σ) (binary : Binary) (lhs rhs : Operand) : Except ExprFault Operand :=
  if binary = .and then .ok (.value (.bool (h.holds s lhs && h.holds s rhs)))
  else if binary = .or then .ok (.value (.bool (h.holds s lhs || h.holds s rhs)))
  else if binary.isComparison then
    match h.resolve? s lhs, h.resolve? s rhs with
    | some l, some r => do
      return .ofOption (← (binary.apply l r (h.store s).registry).mapError .value)
    | _, _ => .ok .absent
  else do
    let l ← h.consume s (.missingValue binary.symbol) lhs
    let r ← h.consume s (.missingValue binary.symbol) rhs
    return .value (← h.combine s binary binary.symbol l r)

/-- The value of an operator on one operand that has to have a value. -/
def altered (s : σ) (unary : Unary) (operand : Operand) : Except ExprFault Value := do
  let v ← h.consume s (.missingValue unary.symbol) operand
  match ← (unary.apply v (h.store s).registry).mapError .value with
  | some result => .ok result
  | none => .error (.unaryTypeMismatch unary.symbol v.kind)

/-- A step sign: the variable it is applied to, if it is one, is written. -/
def stepped (unary : Unary) (operand : Operand) : EStateM ε σ Operand := do
  let v ← h.settle (h.altered (← get) unary operand)
  match operand with
  | .ident name => h.setVariable name v
  | _ => pure ()
  return .value v

/-- An operator on one operand. -/
def signed (unary : Unary) (operand : Operand) : EStateM ε σ Operand := do
  match unary with
  | .not => return .value (.bool !h.holds (← get) operand)
  | .negate => return .value (← h.settle (h.altered (← get) .negate operand))
  | .increment => h.stepped .increment operand
  | .decrement => h.stepped .decrement operand

/-- The value that an assignment stores under a name. -/
def stored (s : σ) (op : Operator) (name : String) (rhs : Operand) :
    Except ExprFault Value := do
  let value ← h.consume s (.missingValue op.symbol) rhs
  match op.binary? with
  | none => .ok value
  | some binary =>
    let current ← h.consume s (.missingValue op.symbol) (.ident name)
    h.combine s binary op.symbol current value

/-- An assignment to an operand, which has to be a variable; `temp` says whether a plain
assignment declares it. -/
def assignTo (temp : Bool) (op : Operator) (target rhs : Operand) : EStateM ε σ Unit := do
  match target with
  | .ident name =>
    let value ← h.settle (h.stored (← get) op name rhs)
    if temp && op = .assign then h.declareTemporary name value else h.setVariable name value
  | _ => h.fail .assignToNonVariable

/-! ## Calls -/

/-- The values of the arguments of a function. -/
def consumeAll (s : σ) (function : String) (operands : List Operand) :
    Except ExprFault (List Value) :=
  operands.mapM (h.consume s (.invalidArgument function "argument has no value"))

/-- A call.  A function of the story is also told which arguments are variables. -/
def invoke (f : FunctionRef) (operands : List Operand) : EStateM ε σ Operand := do
  let s ← get
  let values := h.settle (h.consumeAll s f.name operands)
  match h.callKindOf s f with
  | .builtin b => return .ofOption (← b.call h (← values))
  | .external => return .ofOption (← h.callExternal f.name (← values))
  | .subscript => return .ofOption (← h.subscript f.name (← values))
  | .story =>
    let args := (← values).zipWith Argument.mk (operands.map variableOf)
    return .ofOption (← h.callStory f.name args)
  | .unresolved => h.fail (.unknownFunction f.name)

end Host

/-! ## Meaning of trees -/

namespace Tree

variable {σ ε : Type} (h : Host σ ε)

mutual

/-- The operand that a tree without assignments comes to. -/
def eval : Tree → EStateM ε σ Operand
  | .operand atom => return atom.operand
  | .name f => h.invoke f []
  | .before op inner => do
    let operand ← inner.eval
    h.signed op.unary operand
  | .after op inner => do
    let operand ← inner.eval
    h.signed op.unary operand
  | .between op lhs rhs => do
    let l ← lhs.eval
    let r ← rhs.eval
    match op.1.binary? with
    | some binary => h.settle (h.joined (← get) binary l r)
    | none => h.fail (.missingValue op.1.symbol)
  | .group inner => inner.eval
  | .call f args => do
    let operands ← evalAll args
    h.invoke f operands

/-- The operands that arguments come to, from left to right. -/
def evalAll : List Tree → EStateM ε σ (List Operand)
  | [] => return []
  | arg :: rest => do
    let operand ← arg.eval
    let operands ← evalAll rest
    return operand :: operands

end

/-- The operand that a tree comes to, which may be an assignment and then has none. -/
def evalRoot (temp : Bool) : Tree → EStateM ε σ (Option Operand)
  | .group inner => inner.evalRoot temp
  | .between op lhs rhs =>
    if op.1.isAssignment then do
      let target ← lhs.eval h
      let operand ← rhs.eval h
      h.assignTo temp op.1 target operand
      return none
    else some <$> (between op lhs rhs).eval h
  | t => some <$> t.eval h

mutual

/-- Whether there are no assignments in a tree and every function takes as many arguments
as it is given. -/
def isPlain : Tree → Bool
  | .operand _ => true
  | .name f => f.arity = 0
  | .before _ inner => inner.isPlain
  | .after _ inner => inner.isPlain
  | .between op lhs rhs => !op.1.isAssignment && lhs.isPlain && rhs.isPlain
  | .group inner => inner.isPlain
  | .call f args => f.arity = args.length && arePlain args

/-- Whether every argument is plain. -/
def arePlain : List Tree → Bool
  | [] => true
  | arg :: rest => arg.isPlain && arePlain rest

end

end Tree

/-- What a whole expression means: what its tree comes to is read at the end, and given
back from the enclosing function if the keyword says so. -/
def Sentence.eval {σ ε : Type} (h : Host σ ε) (s : Sentence) : EStateM ε σ Evaluation := do
  let operand ← s.body.evalRoot h (s.keyword = some .temp)
  return { value := operand.bind (h.resolve? (← get)), returned := s.keyword = some .ret }

end Skein
