import RegisterTransfer.Signature
set_option autoImplicit false

/-!
# Instructions

An instruction reads and writes pseudo-registers and names the program points that may follow it.
Operations, memory chunks, addressing modes and comparisons are numbered in stored programs; a
number that names none of them is kept, so that a program holding it can still be shown and
refused.
-/

namespace RegisterTransfer

/-- A program point: the place of an instruction within the code of its function. -/
abbrev Point := UInt32

/-- A pseudo-register. -/
abbrev Reg := UInt32

/-- The register as it is written in a program, such as `x3`. -/
def Reg.text (r : Reg) : String := "x" ++ toString r.toNat

/-- Registers as they are written in a program, separated by commas. -/
def Reg.listText (rs : List Reg) : String := ", ".intercalate (rs.map Reg.text)

/-! ## Operations -/

/-- An operation on registers, with its constant or the function that it names. -/
inductive Operation
  | move
  | intConst (n : Int64)
  | longConst (n : Int64)
  | funcAddr (symbol : String)
  | add
  | addImm (n : Int64)
  | sub
  | mul
  | other (kind : Int)
  deriving DecidableEq, Repr, Inhabited

namespace Operation

/-- The operation of a given number, with the constant and the symbol that it may use. -/
def ofKind (kind : Int) (imm : Int64) (symbol : String) : Operation :=
  match kind with
  | 1 => .move
  | 2 => .intConst imm
  | 3 => .longConst imm
  | 4 => .funcAddr symbol
  | 5 => .add
  | 6 => .addImm imm
  | 7 => .sub
  | 8 => .mul
  | n => .other n

/-- The number of an operation. -/
def kind : Operation → Int
  | .move => 1
  | .intConst _ => 2
  | .longConst _ => 3
  | .funcAddr _ => 4
  | .add => 5
  | .addImm _ => 6
  | .sub => 7
  | .mul => 8
  | .other n => n

/-- The number of registers that the operation reads, if it is a known one. -/
def arity? : Operation → Option Nat
  | .intConst _ | .longConst _ | .funcAddr _ => some 0
  | .move | .addImm _ => some 1
  | .add | .sub | .mul => some 2
  | .other _ => none

/-- The operation as it is written in a program, such as `add[4]`. -/
def text : Operation → String
  | .move => "move"
  | .intConst n => "int[" ++ toString n.toInt ++ "]"
  | .longConst n => "long[" ++ toString n.toInt ++ "]"
  | .funcAddr symbol => "funcaddr[" ++ symbol ++ "]"
  | .add => "add"
  | .addImm n => "add[" ++ toString n.toInt ++ "]"
  | .sub => "sub"
  | .mul => "mul"
  | .other n => "OpKind(" ++ toString n ++ ")"

end Operation

/-! ## Memory access -/

/-- The kind of datum that a load or a store moves. -/
inductive Chunk
  | int32
  | int64
  | any64
  | other (code : Int)
  deriving DecidableEq, Repr, Inhabited

namespace Chunk

/-- The chunk of a given number. -/
def ofCode : Int → Chunk
  | 1 => .int32
  | 2 => .int64
  | 3 => .any64
  | n => .other n

/-- The number of a chunk. -/
def code : Chunk → Int
  | .int32 => 1
  | .int64 => 2
  | .any64 => 3
  | .other n => n

/-- The number of bytes that the chunk occupies. -/
def size : Chunk → Int64
  | .int32 => 4
  | _ => 8

/-- The chunk as it is written in a program. -/
def text : Chunk → String
  | .int32 => "int32"
  | .int64 => "int64"
  | .any64 => "any64"
  | .other n => "Chunk(" ++ toString n ++ ")"

end Chunk

/-- How a load or a store finds its address: some bytes past the pointer in its one argument, or
some bytes into the function's own stack block. -/
inductive Addressing
  | indexed (ofs : Int64)
  | stack (ofs : Int64)
  | other (kind : Int) (ofs : Int64)
  deriving DecidableEq, Repr, Inhabited

namespace Addressing

/-- The addressing mode of a given number, with its offset. -/
def ofKind (kind : Int) (ofs : Int64) : Addressing :=
  match kind with
  | 1 => .indexed ofs
  | 2 => .stack ofs
  | n => .other n ofs

/-- The number of an addressing mode. -/
def kind : Addressing → Int
  | .indexed _ => 1
  | .stack _ => 2
  | .other n _ => n

/-- The offset that the addressing mode adds. -/
def ofs : Addressing → Int64
  | .indexed n | .stack n | .other _ n => n

/-- The number of registers that the addressing mode reads. -/
def arity : Addressing → Nat
  | .indexed _ => 1
  | _ => 0

/-- The addressing mode as it is written in a program, such as `stack[8]`. -/
def text : Addressing → String
  | .indexed n => "indexed[" ++ toString n.toInt ++ "]"
  | .stack n => "stack[" ++ toString n.toInt ++ "]"
  | .other k n => "AddrKind(" ++ toString k ++ ")[" ++ toString n.toInt ++ "]"

end Addressing

/-! ## Conditions -/

/-- A comparison of two integers. -/
inductive Comparison
  | eq
  | ne
  | lt
  | le
  | gt
  | ge
  | other (code : Int)
  deriving DecidableEq, Repr, Inhabited

namespace Comparison

/-- The comparison of a given number. -/
def ofCode : Int → Comparison
  | 1 => .eq
  | 2 => .ne
  | 3 => .lt
  | 4 => .le
  | 5 => .gt
  | 6 => .ge
  | n => .other n

/-- The number of a comparison. -/
def code : Comparison → Int
  | .eq => 1
  | .ne => 2
  | .lt => 3
  | .le => 4
  | .gt => 5
  | .ge => 6
  | .other n => n

/-- The comparison as it is written in a program. -/
def text : Comparison → String
  | .eq => "eq"
  | .ne => "ne"
  | .lt => "lt"
  | .le => "le"
  | .gt => "gt"
  | .ge => "ge"
  | .other n => "Comparison(" ++ toString n ++ ")"

end Comparison

/-- A condition compares its one argument with a constant, or its two arguments with each other. -/
structure Condition where
  comparison : Comparison
  imm : Option Int64
  deriving DecidableEq, Repr, Inhabited

namespace Condition

/-- The number of registers that the condition reads. -/
def arity (c : Condition) : Nat := if c.imm.isSome then 1 else 2

/-- The condition as it is written in a program, such as `eq[0]`. -/
def text (c : Condition) : String :=
  match c.imm with
  | none => c.comparison.text
  | some n => c.comparison.text ++ "[" ++ toString n.toInt ++ "]"

end Condition

/-! ## Instructions -/

/-- The function that a call enters: a named one, or the one that a register holds. -/
inductive Callee
  | symbol (name : String)
  | register (r : Reg)
  deriving DecidableEq, Repr, Inhabited

/-- The callee as it is written in a program. -/
def Callee.text : Callee → String
  | .symbol name => name
  | .register r => r.text

/-- An instruction of the control-flow graph. -/
inductive Instr
  | nop (succ : Point)
  | op (operation : Operation) (args : List Reg) (dest : Reg) (succ : Point)
  | load (chunk : Chunk) (addr : Addressing) (args : List Reg) (dest : Reg) (succ : Point)
  | store (chunk : Chunk) (addr : Addressing) (args : List Reg) (src : Reg) (succ : Point)
  | call (sig : Signature) (callee : Callee) (args : List Reg) (dest : Reg) (succ : Point)
  | tailcall (sig : Signature) (callee : Callee) (args : List Reg)
  | cond (condition : Condition) (args : List Reg) (ifTrue ifFalse : Point)
  | ret (value : Option Reg)
  deriving DecidableEq, Repr, Inhabited

namespace Instr

/-- The points that may follow an instruction, in the order in which it names them. -/
def successors : Instr → List Point
  | .nop s | .op _ _ _ s | .load _ _ _ _ s | .store _ _ _ _ s | .call _ _ _ _ s => [s]
  | .cond _ _ t f => [t, f]
  | .tailcall _ _ _ | .ret _ => []

/-- The register that an instruction copies, if it is a move of one register to another. -/
def moveSource? : Instr → Option Reg
  | .op .move [r] _ _ => some r
  | _ => none

@[simp] theorem moveSource?_move (r dest : Reg) (succ : Point) :
    (op .move [r] dest succ).moveSource? = some r := rfl

theorem moveSource?_eq_some_iff {i : Instr} {r : Reg} :
    i.moveSource? = some r ↔ ∃ dest succ, i = .op .move [r] dest succ := by
  constructor
  · intro h
    unfold moveSource? at h
    split at h
    · cases h
      exact ⟨_, _, rfl⟩
    · cases h
  · rintro ⟨dest, succ, rfl⟩
    rfl

/-- The instruction as it is written in a program. -/
def text : Instr → String
  | .nop s => "nop -> " ++ toString s.toNat
  | .op o args dest s =>
    dest.text ++ " = " ++ o.text ++ "(" ++ Reg.listText args ++ ") -> " ++ toString s.toNat
  | .load c a args dest s =>
    dest.text ++ " = load " ++ c.text ++ " " ++ a.text ++ "(" ++ Reg.listText args ++ ") -> "
      ++ toString s.toNat
  | .store c a args src s =>
    "store " ++ c.text ++ " " ++ a.text ++ "(" ++ Reg.listText args ++ "), " ++ src.text ++ " -> "
      ++ toString s.toNat
  | .call sig f args dest s =>
    dest.text ++ " = call " ++ f.text ++ "(" ++ Reg.listText args ++ ") " ++ sig.text ++ " -> "
      ++ toString s.toNat
  | .tailcall sig f args => "tailcall " ++ f.text ++ "(" ++ Reg.listText args ++ ") " ++ sig.text
  | .cond c args t f =>
    "if " ++ c.text ++ "(" ++ Reg.listText args ++ ") -> " ++ toString t.toNat ++ ", "
      ++ toString f.toNat
  | .ret none => "return"
  | .ret (some r) => "return " ++ r.text

end Instr

end RegisterTransfer
