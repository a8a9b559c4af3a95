import RegisterTransfer.Machine.Step
set_option autoImplicit false

/-!
# External functions

The external functions that a run may be given.  Most of them answer by their arguments alone; a
counter answers by the number of calls that were made of it before.  An `Environment` gives the
externals in force after the external calls made so far.
-/

namespace RegisterTransfer

/-- The externals in force after the given external calls, the latest first. -/
abbrev Environment := List Event → Externals

/-- The environment whose externals never change. -/
def Environment.constant (externals : Externals) : Environment := fun _ => externals

/-- A kind of external function. -/
inductive External
  /-- `mul * x + add` of its one argument `x`. -/
  | affine (mul add : Int32)
  /-- `add` plus the sum of its arguments. -/
  | sum (add : Int32)
  /-- Always the same value. -/
  | constant (v : Val)
  /-- The argument of a given number, counted from zero. -/
  | argument (n : Int)
  /-- The number of its earlier calls plus `start`. -/
  | counter (start : Int32)
  deriving DecidableEq, Repr, Inhabited

namespace External

/-- The sum of integers and a start value, `undefined` if one of the values is no integer. -/
def sumOf (start : Int32) : List Val → Val
  | [] => .int start
  | .int n :: rest => sumOf (start + n) rest
  | _ :: _ => .undefined

/-- The answer to a call of a name, given the external calls made before. -/
def answer (history : List Event) (name : String) : External → List Val → Val
  | .affine mul add, [.int x] => .int (mul * x + add)
  | .affine _ _, _ => .undefined
  | .sum add, args => sumOf add args
  | .constant v, _ => v
  | .argument n, args => if n < 0 then .undefined else args.getD n.toNat .undefined
  | .counter start, _ =>
    .int (start + Int32.ofNat (history.countP fun event => event.name = name))

/-- The environment of named externals. -/
def environment (externals : List (String × External)) : Environment := fun history name =>
  (externals.lookup name).map (answer history name)

end External

end RegisterTransfer
