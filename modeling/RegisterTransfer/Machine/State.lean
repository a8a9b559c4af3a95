import RegisterTransfer.Machine.Memory
import RegisterTransfer.Machine.Registers
import RegisterTransfer.Program
set_option autoImplicit false

/-!
# States of the machine

A state is a memory, a stack of suspended callers, and what the machine is about to do: execute an
instruction, enter a function, or return a value.
-/

namespace RegisterTransfer

/-- A suspended caller: it resumes at `pc` of `function`, with the result of the call in `result`. -/
structure Frame where
  result : Reg
  function : Function
  sp : Block
  pc : Point
  regs : Registers
  deriving DecidableEq, Inhabited

/-- What the machine is about to do. -/
inductive Control
  /-- Execute the instruction at `pc` of `function`, whose stack block is `sp`. -/
  | running (function : Function) (sp : Block) (pc : Point) (regs : Registers)
  /-- Enter the function `callee`. -/
  | calling (callee : String) (args : List Val)
  /-- Return `value` to the innermost frame. -/
  | returning (value : Val)
  deriving DecidableEq, Inhabited

/-- A state of the machine.  The stack starts with its innermost frame. -/
structure State where
  stack : List Frame
  memory : Memory
  control : Control
  deriving DecidableEq, Inhabited

namespace State

/-- The state that calls the first function of a program, without arguments, in an empty memory. -/
def initial (p : Program) : State := ⟨[], ∅, .calling p.main []⟩

/-- The number of suspended callers. -/
def depth (s : State) : Nat := s.stack.length

/-- The result of a state that returns and has no frame left. -/
def final? (s : State) : Option Val :=
  match s.stack, s.control with
  | [], .returning v => some v
  | _, _ => none

/-- The text of a state. -/
def text (s : State) : String :=
  match s.control with
  | .running f sp pc regs =>
    "running " ++ f.name ++ ":" ++ toString pc.toNat ++ " sp=b" ++ toString sp.toNat ++ " depth="
      ++ toString s.depth ++ " regs=" ++ regs.text
  | .calling callee args =>
    "calling " ++ callee ++ Val.listText args ++ " depth=" ++ toString s.depth
  | .returning v => "returning " ++ v.text ++ " depth=" ++ toString s.depth

end State

end RegisterTransfer
