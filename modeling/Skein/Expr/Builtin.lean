import Skein.Expr.Host
import Skein.Expr.Token
import Skein.Value.Apply

set_option autoImplicit false

/-!
# Expr: built-in functions

What each built-in function answers.  A function first checks the number of its
arguments, then each argument it needs as a number, a list or a section path.
-/

namespace Skein

namespace Builtin

variable {σ ε : Type} (h : Host σ ε)

/-- Fails because of an argument. -/
def invalid {α : Type} (b : Builtin) (reason : String) : EStateM ε σ α :=
  h.fail (.invalidArgument b.name reason)

/-- An argument that has to be a number, as an integer. -/
def intArg (b : Builtin) (v : Value) : EStateM ε σ Int64 :=
  match v.asInt? with
  | some n => pure n
  | none => b.invalid h ("expected a number, got " ++ v.kind.text)

/-- An argument that has to be a number, as a double. -/
def floatArg (b : Builtin) (v : Value) : EStateM ε σ Float :=
  match v.asFloat? with
  | some x => pure x
  | none => b.invalid h ("expected a number, got " ++ v.kind.text)

/-- An argument that has to be a list. -/
def listArg (b : Builtin) (v : Value) : EStateM ε σ Selection :=
  match v with
  | .list l => pure l
  | _ => b.invalid h ("expected a list, got " ++ v.kind.text)

/-- An argument that has to be a section path. -/
def pathArg (b : Builtin) (v : Value) : EStateM ε σ String :=
  match v with
  | .string p => pure p
  | _ => b.invalid h ("expected a section path, got " ++ v.kind.text)

/-- The number that a text spells, white space around it set aside. -/
def spelledArg (b : Builtin) (s : String) : EStateM ε σ Float :=
  match Number.readFloat? (Text.trimChars s.toList) with
  | some x => pure x
  | none => b.invalid h ("not a number: " ++ Text.quote s)

/-- A count kept for a section, which must exist. -/
def sectionCount (b : Builtin) (count : σ → String → Option Int64) (path : String) :
    EStateM ε σ Value := do
  match count (← get) path with
  | some n => return .int n
  | none => b.invalid h ("unknown section: " ++ path)

/-- A draw from the host. -/
def draw (low high : Int64) : EStateM ε σ Int64 := modifyGet (h.random low high)

/-- Whether the first value is below the second. -/
def isBelow (a b : Value) : EStateM ε σ Bool := do
  let answer ← h.ofValue (Binary.less.apply a b (← h.getStore).registry)
  return answer.any Value.isTruthy

/-- Calls a built-in function. -/
def call (b : Builtin) (args : List Value) : EStateM ε σ (Option Value) :=
  match b, args with
  | random, [low, high] => do
    let low ← b.intArg h low
    let high ← b.intArg h high
    if low > high then b.invalid h ("empty range " ++ toString low ++ "..=" ++ toString high)
    else return some (.int (← draw h low high))
  | seedRandom, [seed] => do
    let seed ← b.intArg h seed
    modify (h.reseed seed.toUInt64)
    return none
  | int, [.string s] => do return some (.int (← b.spelledArg h s).toInt64)
  | int, [v] => do return some (.int (← b.intArg h v))
  | float, [.string s] => do return some (.float (← b.spelledArg h s))
  | float, [v] => do return some (.float (← b.floatArg h v))
  | floor, [.float x] => return some (.float x.floor)
  | floor, [v] => do return some (.int (← b.intArg h v))
  | ceiling, [.float x] => return some (.float x.ceil)
  | ceiling, [v] => do return some (.int (← b.intArg h v))
  | pow, [base, exponent] => do
    let base ← b.floatArg h base
    let exponent ← b.floatArg h exponent
    return some (.float (base.pow exponent))
  | min, [v, w] => do return some (if ← isBelow h v w then v else w)
  | max, [v, w] => do return some (if ← isBelow h v w then w else v)
  | turns, [] => do return some (.int (h.turnIndex (← get)))
  | turnsSince, [v] => do
    let path ← b.pathArg h v
    return some (← b.sectionCount h h.turnsSince path)
  | readCount, [.int n] => return some (.int n)
  | readCount, [v] => do
    let path ← b.pathArg h v
    return some (← b.sectionCount h h.readCount path)
  | choiceCount, [] => do return some (.int (h.choiceCount (← get)))
  | listCount, [v] => do return some (.int (Int64.ofNat (← b.listArg h v).size))
  | listMin, [v] => do return some (.list (← b.listArg h v).minList)
  | listMax, [v] => do return some (.list (← b.listArg h v).maxList)
  | listAll, [v] => do
    let l ← b.listArg h v
    return some (.list (← h.ofValue (l.allPossible (← h.getStore).registry)))
  | listInvert, [v] => do
    let l ← b.listArg h v
    return some (.list (← h.ofValue (l.inverse (← h.getStore).registry)))
  | listRange, [v, low, high] => do
    let l ← b.listArg h v
    let low ← b.intArg h low
    let high ← b.intArg h high
    return some (.list (l.range low high))
  | listValue, [v] => do return some (.int (← b.listArg h v).value)
  | listRandom, [v] => do
    let l ← b.listArg h v
    if l.isEmpty then return some (.list l)
    let place ← draw h 0 (Int64.ofNat l.size - 1)
    return some (.list
      (match l.items.toList[place.toInt.toNat]? with
        | some item => .ofItem item
        | none => .empty))
  | b, args => h.fail (.wrongArity b.name b.arity args.length)

end Builtin

end Skein
