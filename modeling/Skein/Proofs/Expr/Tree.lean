import Skein.Expr.Postorder

set_option autoImplicit false

/-!
# Expr: expression trees

An expression as the tree its author meant: operands, operators before, after and between
their operands, groups in parentheses, and calls.  A tree can be written down as a list of
tokens, and its tokens have a post-order.  Both are defined on the tree alone, without the
stack that `postorder` holds tokens on, so that what `postorder` finds can be compared
with what was meant.

A list of tokens fixes its tree only where parentheses stand wherever binding strengths
ask for them; `Tree.isBracketed` says that they do.
-/

namespace Skein

/-! ## Operators by the place they stand at -/

/-- A token that is an operand by itself. -/
abbrev Atom : Type := { token : Token // token.isOperand = true }

/-- An operator that can stand before its operand: a sign, a negation or a step. -/
abbrev LeadingOp : Type := { op : Operator // op.unary?.isSome = true }

/-- An operator that can stand after its operand: a step. -/
abbrev TrailingOp : Type := { op : Operator // op = .increment ∨ op = .decrement }

/-- An operator that can stand between two operands: any that does not take a single
one. -/
abbrev JoiningOp : Type := { op : Operator // op.unary?.isNone = true }

namespace Operator

/-- Operators with a single operand bind tightest of all. -/
theorem precedence_of_unary? {op : Operator} (h : op.unary?.isSome = true) :
    op.precedence = 13 := by
  cases op <;> simp_all [unary?, precedence]

/-- Operators between operands bind more loosely than those with a single one. -/
theorem precedence_lt_of_joining {op : Operator} (h : op.unary?.isNone = true) :
    op.precedence < 13 := by
  cases op <;> simp_all [unary?, precedence]

/-- Every operator binds tighter than a keyword, whose strength is zero. -/
theorem precedence_pos (op : Operator) : 0 < op.precedence := by
  cases op <;> simp [precedence]

/-- The operators that group from the right are exactly those of the lowest strength, so
two operators of one strength group from the same side. -/
theorem isRightAssociative_iff (op : Operator) :
    op.isRightAssociative = true ↔ op.precedence = 1 := by
  cases op <;> simp [isRightAssociative, isAssignment, precedence]

end Operator

/-! ## Trees -/

/-- An expression without keywords. -/
inductive Tree where
  /-- A literal, a path or a variable. -/
  | operand (atom : Atom)
  /-- A function that is named and not called. -/
  | name (f : FunctionRef)
  /-- An operator before its operand. -/
  | before (op : LeadingOp) (inner : Tree)
  /-- An operator after its operand. -/
  | after (op : TrailingOp) (inner : Tree)
  /-- An operator between two operands. -/
  | between (op : JoiningOp) (lhs rhs : Tree)
  /-- An expression in parentheses. -/
  | group (inner : Tree)
  /-- A call with arguments. -/
  | call (f : FunctionRef) (args : List Tree)

namespace Tree

/-- Induction on trees: what holds of a call may be proved from what holds of each of its
arguments. -/
@[induction_eliminator]
theorem induct {motive : Tree → Prop}
    (operand : ∀ atom, motive (.operand atom))
    (name : ∀ f, motive (.name f))
    (before : ∀ op inner, motive inner → motive (.before op inner))
    (after : ∀ op inner, motive inner → motive (.after op inner))
    (between : ∀ op lhs rhs, motive lhs → motive rhs → motive (.between op lhs rhs))
    (group : ∀ inner, motive inner → motive (.group inner))
    (call : ∀ f args, (∀ arg ∈ args, motive arg) → motive (.call f args)) :
    ∀ t, motive t := by
  have hnil : ∀ arg ∈ ([] : List Tree), motive arg := by
    intro arg harg
    simp at harg
  have hcons : ∀ (head : Tree) (tail : List Tree), motive head →
      (∀ arg ∈ tail, motive arg) → ∀ arg ∈ head :: tail, motive arg := by
    intro head tail hhead htail arg harg
    rcases List.mem_cons.mp harg with rfl | harg
    · exact hhead
    · exact htail arg harg
  exact @Tree.rec motive (fun args => ∀ arg ∈ args, motive arg)
    operand name before after between group call hnil hcons

/-! ## Writing a tree down -/

mutual

/-- The tokens of a tree, as it is written. -/
def tokens : Tree → List Token
  | .operand atom => [atom.1]
  | .name f => [.function f]
  | .before op inner => .operator op.1 .before :: inner.tokens
  | .after op inner => inner.tokens ++ [.operator op.1 .after]
  | .between op lhs rhs => lhs.tokens ++ .operator op.1 .between :: rhs.tokens
  | .group inner => .punct .opening :: (inner.tokens ++ [.punct .closing])
  | .call f args =>
    .function f :: .punct .opening :: (argumentTokens args ++ [.punct .closing])

/-- The tokens of arguments, with commas between them. -/
def argumentTokens : List Tree → List Token
  | [] => []
  | arg :: rest => arg.tokens ++ laterTokens rest

/-- The tokens of the arguments after the first, each behind a comma. -/
def laterTokens : List Tree → List Token
  | [] => []
  | arg :: rest => .punct .comma :: (arg.tokens ++ laterTokens rest)

end

/-- The number of tokens of a tree. -/
def size (t : Tree) : Nat := t.tokens.length

/-! ## Post-order -/

mutual

/-- The places of the tokens of a tree that starts at a place, in post-order: operands and
arguments from left to right, then the operator or function they belong to. -/
def order (place : Nat) : Tree → List Nat
  | .operand _ => [place]
  | .name _ => [place]
  | .before _ inner => inner.order (place + 1) ++ [place]
  | .after _ inner => inner.order place ++ [place + inner.size]
  | .between _ lhs rhs =>
    lhs.order place ++ rhs.order (place + lhs.size + 1) ++ [place + lhs.size]
  | .group inner => inner.order (place + 1)
  | .call _ args => argumentOrder (place + 2) args ++ [place]

/-- The post-order of arguments of which the first starts at a place. -/
def argumentOrder (place : Nat) : List Tree → List Nat
  | [] => []
  | arg :: rest => arg.order place ++ argumentOrder (place + arg.size + 1) rest

end

/-! ## Parentheses -/

/-- How tightly a tree holds together.  An operator after its operand binds tighter than
one before it; what needs no operator to hold together cannot be torn apart at all. -/
def strength : Tree → Nat
  | .before op _ => op.1.precedence
  | .after op _ => op.1.precedence + 1
  | .between op _ _ => op.1.precedence
  | _ => 15

/-- Whether a tree may stand to the left of an operator without parentheses. -/
def fitsLeft (op : Operator) (t : Tree) : Bool :=
  if op.isRightAssociative then op.precedence < t.strength else op.precedence ≤ t.strength

/-- Whether a tree may stand to the right of an operator without parentheses. -/
def fitsRight (op : Operator) (t : Tree) : Bool :=
  if op.isRightAssociative then op.precedence ≤ t.strength else op.precedence < t.strength

mutual

/-- Whether parentheses stand at least wherever binding strengths ask for them. -/
def isBracketed : Tree → Bool
  | .operand _ => true
  | .name _ => true
  | .before op inner => op.1.precedence ≤ inner.strength && inner.isBracketed
  | .after op inner => op.1.precedence + 1 ≤ inner.strength && inner.isBracketed
  | .between op lhs rhs =>
    fitsLeft op.1 lhs && fitsRight op.1 rhs && lhs.isBracketed && rhs.isBracketed
  | .group inner => inner.isBracketed
  | .call _ args => areBracketed args

/-- Whether every argument has its parentheses; the arguments themselves need none. -/
def areBracketed : List Tree → Bool
  | [] => true
  | arg :: rest => arg.isBracketed && areBracketed rest

end

theorem areBracketed_iff (args : List Tree) :
    areBracketed args = true ↔ ∀ arg ∈ args, arg.isBracketed = true := by
  induction args with
  | nil => simp [areBracketed]
  | cons arg rest ih => simp [areBracketed, ih]

/-! ## Places and tokens -/

@[simp] theorem size_operand (atom : Atom) : (operand atom).size = 1 := by
  simp [size, tokens]

@[simp] theorem size_name (f : FunctionRef) : (name f).size = 1 := by
  simp [size, tokens]

@[simp] theorem size_before (op : LeadingOp) (inner : Tree) :
    (before op inner).size = inner.size + 1 := by
  simp [size, tokens]

@[simp] theorem size_after (op : TrailingOp) (inner : Tree) :
    (after op inner).size = inner.size + 1 := by
  simp [size, tokens]

@[simp] theorem size_between (op : JoiningOp) (lhs rhs : Tree) :
    (between op lhs rhs).size = lhs.size + rhs.size + 1 := by
  simp only [size, tokens, List.length_append, List.length_cons]
  omega

@[simp] theorem size_group (inner : Tree) : (group inner).size = inner.size + 2 := by
  simp [size, tokens]

@[simp] theorem size_call (f : FunctionRef) (args : List Tree) :
    (call f args).size = (argumentTokens args).length + 3 := by
  simp [size, tokens]

end Tree

/-! ## Sentences -/

/-- A whole expression: a tree, behind a keyword if there is one. -/
structure Sentence where
  keyword : Option Keyword
  body : Tree

namespace Sentence

/-- The tokens of a whole expression, as it is written. -/
def tokens (s : Sentence) : List Token :=
  match s.keyword with
  | none => s.body.tokens
  | some k => .keyword k :: s.body.tokens

/-- The places of the tokens in post-order; a keyword comes last. -/
def order (s : Sentence) : List Nat :=
  match s.keyword with
  | none => s.body.order 0
  | some _ => s.body.order 1 ++ [0]

end Sentence

end Skein
