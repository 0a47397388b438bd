import Skein.Expr.Builtin
import Skein.Expr.Expression

set_option autoImplicit false

/-!
# Expr: evaluation

Tokens are evaluated in order on a stack of operands.  A variable stays unread on the
stack until an operator or a call needs its value, and an operand may have no value: a
comparison that does not apply, or a call that answers nothing.  Conditions and logical
operators take a missing value as false; comparisons pass it on; everything else fails.
-/

namespace Skein

/-- An operand on the stack. -/
inductive Operand where
  | value (v : Value)
  /-- A variable that has not been read. -/
  | ident (name : String)
  /-- A section path. -/
  | path (p : String)
  /-- No value. -/
  | absent
  deriving DecidableEq

/-- The outcome of an expression: its value, if it has one, and whether it was given back
from a function. -/
structure Evaluation where
  value : Option Value
  returned : Bool
  deriving DecidableEq

/-- The operand for a value that may be missing. -/
def Operand.ofOption : Option Value → Operand
  | some v => .value v
  | none => .absent

namespace Host

variable {σ ε : Type} (h : Host σ ε)

/-! ## Reading operands -/

/-- The value of a variable: from the store, else the list item it names, else the number
of visits of the section it names. -/
def fetch? (s : σ) (name : String) : Option Value :=
  ((h.store s).get? name).or
    ((((h.store s).registry.findItem? name).map fun item => .list (.ofItem item)).or
      ((h.readCount s name).map .int))

/-- The value of an operand. -/
def resolve? (s : σ) : Operand → Option Value
  | .value v => some v
  | .ident name => h.fetch? s name
  | .path p => some (.string p)
  | .absent => none

/-- Fails because an operand has no value. -/
def missing {α : Type} (operand : Operand) (op : String) : EStateM ε σ α :=
  match operand with
  | .ident name => h.fail (.undefinedVariable name)
  | _ => h.fail (.missingValue op)

/-- The value of an operand, which must have one. -/
def require (operand : Operand) (op : String) : EStateM ε σ Value := do
  match h.resolve? (← get) operand with
  | some v => return v
  | none => h.missing operand op

/-! ## Operators -/

/-- An operator on two operands of which at least one has no value. -/
def applyMissing (op : Operator) (binary : Binary) (lhs rhs : Operand) (l r : Option Value) :
    EStateM ε σ Operand :=
  match binary with
  | .and => return .value (.bool (l.any Value.isTruthy && r.any Value.isTruthy))
  | .or => return .value (.bool (l.any Value.isTruthy || r.any Value.isTruthy))
  | _ =>
    if binary.isComparison then return .absent
    else if l.isNone then h.missing lhs op.symbol
    else h.missing rhs op.symbol

/-- An operator between two operands. -/
def applyBinary (op : Operator) (lhs rhs : Operand) : EStateM ε σ Operand := do
  match op.binary? with
  | none => h.fail (.missingValue op.symbol)
  | some binary =>
    let s ← get
    match h.resolve? s lhs, h.resolve? s rhs with
    | some l, some r =>
      match ← h.ofValue (binary.apply l r (h.store s).registry) with
      | some v => return .value v
      | none =>
        if binary.isComparison then return .absent
        else h.fail (.typeMismatch binary.symbol l.kind r.kind)
    | l, r => h.applyMissing op binary lhs rhs l r

/-- Stores the result of a step sign in the variable it is applied to. -/
def storeStep (unary : Unary) (operand : Operand) (result : Value) : EStateM ε σ Unit :=
  match unary, operand with
  | .increment, .ident name | .decrement, .ident name => h.setVariable name result
  | _, _ => return ()

/-- An operator before or after its operand. -/
def applyUnary (op : Operator) (operand : Operand) : EStateM ε σ Operand := do
  match op.unary? with
  | none => h.fail (.missingValue op.symbol)
  | some unary =>
    let s ← get
    match h.resolve? s operand with
    | none => if unary = .not then return .value (.bool true) else h.missing operand op.symbol
    | some v =>
      match ← h.ofValue (unary.apply v (h.store s).registry) with
      | none => h.fail (.unaryTypeMismatch unary.symbol v.kind)
      | some result =>
        h.storeStep unary operand result
        return .value result

/-- The value that an assignment stores: the right side, combined with the old value in a
compound assignment. -/
def assigned (op : Operator) (name : String) (value : Value) : EStateM ε σ Value := do
  match op.binary? with
  | none => return value
  | some binary =>
    let current ← h.require (.ident name) op.symbol
    match ← h.ofValue (binary.apply current value (← h.getStore).registry) with
    | some v => return v
    | none => h.fail (.typeMismatch op.symbol current.kind value.kind)

/-- An assignment; `temp` says that the expression declares a temporary. -/
def assign (temp : Bool) (op : Operator) (target rhs : Operand) : EStateM ε σ Unit := do
  match target with
  | .ident name =>
    let value ← h.assigned op name (← h.require rhs op.symbol)
    if temp && op = .assign then h.declareTemporary name value else h.setVariable name value
  | _ => h.fail .assignToNonVariable

/-! ## Calls -/

/-- The value of an argument of a function. -/
def argument (function : String) (operand : Operand) : EStateM ε σ Value := do
  match h.resolve? (← get) operand with
  | some v => return v
  | none =>
    match operand with
    | .ident name => h.fail (.undefinedVariable name)
    | _ => h.fail (.invalidArgument function "argument has no value")

/-- The values of arguments, in order. -/
def arguments (function : String) : List Operand → EStateM ε σ (List Value)
  | [] => return []
  | operand :: rest => do
    let v ← h.argument function operand
    return v :: (← arguments function rest)

/-- The variable that an operand is. -/
def variableOf : Operand → Option String
  | .ident name => some name
  | _ => none

/-- Arguments with the variables they are, in order. -/
def storyArguments (function : String) : List Operand → EStateM ε σ (List Argument)
  | [] => return []
  | operand :: rest => do
    let v ← h.argument function operand
    return { value := v, origin := variableOf operand } :: (← storyArguments function rest)

/-- Where a function that was not known when the expression was read is defined now. -/
def kindOf (s : σ) (name : String) : Option CallKind :=
  if h.isStoryFunction s name then some .story
  else if (h.store s).registry.containsName name then some .subscript
  else if h.isExternal s name then some .external
  else none

/-- The item of a list definition with a value. -/
def subscript (name : String) (args : List Value) : EStateM ε σ (Option Value) := do
  match args with
  | [v] =>
    match v.asInt? with
    | some n => return some (.list (← h.ofValue ((← h.getStore).registry.itemByValue name n)))
    | none => h.fail (.invalidArgument name ("expected a number, got " ++ v.kind.text))
  | args => h.fail (.wrongArity name 1 args.length)

/-- Calls a function that is defined in a known way. -/
def callKind (kind : CallKind) (name : String) (operands : List Operand) :
    EStateM ε σ (Option Value) := do
  match kind with
  | .builtin b => b.call h (← h.arguments name operands)
  | .external => h.callExternal name (← h.arguments name operands)
  | .story => h.callStory name (← h.storyArguments name operands)
  | .subscript => h.subscript name (← h.arguments name operands)
  | .unresolved => h.fail (.unknownFunction name)

/-- How a call is carried out: as it was read, or as can be told only now. -/
def callKindOf (s : σ) (f : FunctionRef) : CallKind :=
  match f.kind with
  | .unresolved => (h.kindOf s f.name).getD .unresolved
  | kind => kind

/-- Calls a function with operands. -/
def call (f : FunctionRef) (operands : List Operand) : EStateM ε σ Operand := do
  let kind := h.callKindOf (← get) f
  return .ofOption (← h.callKind kind f.name operands)

/-! ## The stack -/

/-- The operands on the stack, the last one first, and what a `return` gave back. -/
structure Machine where
  stack : List Operand := []
  returned : Option (Option Value) := none
  deriving DecidableEq

/-- Puts an operand on the stack. -/
def Machine.push (m : Machine) (operand : Operand) : Machine :=
  { m with stack := operand :: m.stack }

/-- Takes an operator from the stack's operands. -/
def stepOperator (temp : Bool) (m : Machine) (op : Operator) (fixity : Fixity) :
    EStateM ε σ Machine :=
  if op.isAssignment then
    match m.stack with
    | rhs :: target :: rest => do
      h.assign temp op target rhs
      return { m with stack := rest }
    | _ => h.fail .stackUnderflow
  else if fixity = .between then
    match m.stack with
    | rhs :: lhs :: rest => do
      let result ← h.applyBinary op lhs rhs
      return { m with stack := result :: rest }
    | _ => h.fail .stackUnderflow
  else
    match m.stack with
    | operand :: rest => do
      let result ← h.applyUnary op operand
      return { m with stack := result :: rest }
    | [] => h.fail .stackUnderflow

/-- Evaluates one token. -/
def step (temp : Bool) (m : Machine) (token : Token) : EStateM ε σ Machine :=
  match token with
  | .bool b => return m.push (.value (.bool b))
  | .int n => return m.push (.value (.int n))
  | .float x => return m.push (.value (.float x))
  | .str s => return m.push (.value (.string s))
  | .list l => return m.push (.value (.list l))
  | .path p => return m.push (.path p)
  | .ident name => return m.push (.ident name)
  | .keyword .temp => return m
  | .keyword .ret => do
    let s ← get
    return { stack := m.stack.drop 1, returned := some (m.stack.head?.bind (h.resolve? s)) }
  | .operator op fixity => h.stepOperator temp m op fixity
  | .function f =>
    if m.stack.length < f.arity then h.fail .stackUnderflow
    else do
      let result ← h.call f (m.stack.take f.arity).reverse
      return { m with stack := result :: m.stack.drop f.arity }
  | .punct _ => return m

/-- Evaluates the tokens at the given places, in order. -/
def run (temp : Bool) (tokens : List Token) (m : Machine) : List Nat → EStateM ε σ Machine
  | [] => return m
  | place :: rest =>
    match tokens[place]? with
    | none => h.fail .stackUnderflow
    | some token => do
      let m ← h.step temp m token
      run temp tokens m rest

/-- What the machine has come to. -/
def outcome (s : σ) (m : Machine) : Evaluation :=
  match m.returned with
  | some value => { value := value, returned := true }
  | none => { value := m.stack.head?.bind (h.resolve? s), returned := false }

/-- Evaluates tokens in the given order. -/
def evaluate (tokens : List Token) (order : List Nat) : EStateM ε σ Evaluation := do
  let m ← h.run (tokens.any Token.isTemp) tokens {} order
  return h.outcome (← get) m

end Host

namespace Expression

variable {σ ε : Type}

/-- Evaluates an expression. -/
def evaluate (e : Expression) (h : Host σ ε) : EStateM ε σ Evaluation :=
  h.evaluate e.tokens e.order

/-- The value of an expression. -/
def value (e : Expression) (h : Host σ ε) : EStateM ε σ (Option Value) := do
  return (← e.evaluate h).value

/-- Whether an expression is true; a missing value is not. -/
def isTrue (e : Expression) (h : Host σ ε) : EStateM ε σ Bool := do
  return (← e.value h).any Value.isTruthy

end Expression

end Skein
