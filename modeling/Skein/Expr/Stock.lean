import Skein.Expr.Host

set_option autoImplicit false

/-!
# Expr: ready-made host functions

A few functions that a host can provide under any name.
-/

namespace Skein.External

/-- The text of the first argument with ASCII letters in upper case. -/
def upper : External :=
  .pure fun args => args.head?.map fun v => .string (v.text.map Char.toUpper)

/-- The sum of integer arguments, wrapping around; nothing if an argument is no number. -/
def sum : External :=
  .pure fun args => (args.mapM Value.asInt?).map fun ns => .int ns.sum

/-- The texts of the arguments with dashes between them. -/
def join : External :=
  .pure fun args => some (.string ("-".intercalate (args.map Value.text)))

/-- The number of arguments. -/
def count : External := .pure fun args => some (.int (Int64.ofNat args.length))

/-- The last argument. -/
def last : External := .pure List.getLast?

/-- No answer. -/
def void : External := .pure fun _ => none

/-- The number of this call, counted from one. -/
def tick : External :=
  { respond := fun earlier _ => some (.int (Int64.ofNat (earlier.length + 1))) }

/-- The function with a name. -/
def named? : String → Option External
  | "upper" => some upper
  | "sum" => some sum
  | "join" => some join
  | "count" => some count
  | "last" => some last
  | "void" => some void
  | "tick" => some tick
  | _ => none

end Skein.External
