import RegisterTransfer.Program
set_option autoImplicit false

/-!
# Epilogues

An epilogue of a register is a path through the code that does nothing but return the register: it
passes through no-operations and through moves out of the register that holds the value, and ends
in a return of that register or of no value.
-/

namespace RegisterTransfer

namespace Code

/-- The number of instructions that a walk may follow: a walk that comes to a point twice never
ends, so the size of the code bounds it too. -/
def reach (code : Code) (bound : Int) : Nat := min bound.toNat code.size

/-- The points of the epilogue of `r` from `pc`, if it has at most `n` of them. -/
def walk? (code : Code) : Nat → Point → Reg → Option (List Point)
  | 0, _, _ => none
  | n + 1, pc, r =>
    match code.at? pc with
    | some (.ret none) => some [pc]
    | some (.ret (some r')) => if r' = r then some [pc] else none
    | some (.nop succ) => (walk? code n succ r).map (pc :: ·)
    | some i@(.op _ _ dest succ) =>
      if i.moveSource? = some r then (walk? code n succ dest).map (pc :: ·) else none
    | _ => none

/-- The points of the epilogue of `r` from `pc`, if it is within the bound. -/
def epilogue? (code : Code) (pc : Point) (r : Reg) (bound : Int) : Option (List Point) :=
  code.walk? (code.reach bound) pc r

/-- Whether the code from `pc` does nothing but return `r`, within the bound. -/
def isReturn (code : Code) (pc : Point) (r : Reg) (bound : Int) : Bool :=
  (code.epilogue? pc r bound).isSome

/-- The number of no-operations and moves in a straight line from `pc`, counted up to `n`. -/
def straight (code : Code) : Nat → Point → Nat
  | 0, _ => 0
  | n + 1, pc =>
    match code.at? pc with
    | some (.nop succ) => straight code n succ + 1
    | some i@(.op _ _ _ succ) => if i.moveSource?.isSome then straight code n succ + 1 else 0
    | _ => 0

/-- The number of no-operations and moves in a straight line from `pc`, counted up to the bound. -/
def measure (code : Code) (pc : Point) (bound : Int) : Nat :=
  code.straight (code.reach bound) pc

end Code

end RegisterTransfer
