import RegisterTransfer.Instr
import RegisterTransfer.Machine.Value
set_option autoImplicit false

/-!
# Evaluating operations, addresses and conditions

Arithmetic wraps around at the width of its operands.  Operands of the wrong kind give `undefined`; a
wrong number of operands, or an operation that is none, gives no result at all.
-/

namespace RegisterTransfer

namespace Val

/-- The sum of a value and a constant. -/
def addImm : Val → Int64 → Val
  | .int x, n => .int (x + n.toInt32)
  | .long x, n => .long (x + n)
  | .ptr b ofs, n => .ptr b (ofs + n)
  | _, _ => .undefined

/-- The sum of two numbers, or of a pointer and a number. -/
def add : Val → Val → Val
  | .int x, .int y => .int (x + y)
  | .int x, .ptr b ofs => .ptr b (ofs + x.toInt64)
  | .long x, .long y => .long (x + y)
  | .ptr b ofs, .int y => .ptr b (ofs + y.toInt64)
  | _, _ => .undefined

/-- The difference of two numbers, or of a pointer and a number. -/
def sub : Val → Val → Val
  | .int x, .int y => .int (x - y)
  | .long x, .long y => .long (x - y)
  | .ptr b ofs, .int y => .ptr b (ofs - y.toInt64)
  | _, _ => .undefined

/-- The product of two numbers. -/
def mul : Val → Val → Val
  | .int x, .int y => .int (x * y)
  | .long x, .long y => .long (x * y)
  | _, _ => .undefined

end Val

/-- The result of an operation on its operands. -/
def Operation.eval? : Operation → List Val → Option Val
  | .move, [v] => some v
  | .intConst n, [] => some (.int n.toInt32)
  | .longConst n, [] => some (.long n)
  | .funcAddr symbol, [] => some (.func symbol)
  | .addImm n, [v] => some (v.addImm n)
  | .add, [v, w] => some (v.add w)
  | .sub, [v, w] => some (v.sub w)
  | .mul, [v, w] => some (v.mul w)
  | _, _ => none

/-- The block and the offset that an addressing mode gives, from the stack block of the function
and the operands. -/
def Addressing.eval? (a : Addressing) (sp : Block) (args : List Val) : Option (Block × Int64) :=
  match a, args with
  | .stack ofs, [] => some (sp, ofs)
  | .indexed ofs, [.ptr b base] => some (b, base + ofs)
  | _, _ => none

/-- The truth of a comparison of two numbers. -/
def Comparison.eval? (c : Comparison) (x y : Int64) : Option Bool :=
  match c with
  | .eq => some (x = y)
  | .ne => some (x ≠ y)
  | .lt => some (x < y)
  | .le => some (x ≤ y)
  | .gt => some (y < x)
  | .ge => some (y ≤ x)
  | .other _ => none

/-- The truth of a condition.  Its operands must be numbers of one width, and a constant is cut to
the width of the operand that it is compared with. -/
def Condition.eval? (c : Condition) (args : List Val) : Option Bool :=
  match c.imm, args with
  | some n, [.int x] => c.comparison.eval? x.toInt64 n.toInt32.toInt64
  | some n, [.long x] => c.comparison.eval? x n
  | none, [.int x, .int y] => c.comparison.eval? x.toInt64 y.toInt64
  | none, [.long x, .long y] => c.comparison.eval? x y
  | _, _ => none

end RegisterTransfer
