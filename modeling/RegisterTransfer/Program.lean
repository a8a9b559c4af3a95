import RegisterTransfer.FinMap
import RegisterTransfer.Instr
set_option autoImplicit false

/-!
# Programs

The code of a function is an arena of slots numbered by program point, some of them empty.  A
program is a table of functions, kept in the order of their names, with the name of the function
that starts it.
-/

namespace RegisterTransfer

/-! ## Code -/

/-- The code of a function: slot `n` holds the instruction at point `n`, if there is one. -/
structure Code where
  slots : Array (Option Instr)
  deriving DecidableEq, Repr, Inhabited

namespace Code

/-- The code without slots. -/
def empty : Code := ⟨#[]⟩

instance : EmptyCollection Code := ⟨empty⟩

/-- The number of slots, empty ones included. -/
def size (c : Code) : Nat := c.slots.size

/-- The instruction at a point, if there is one. -/
def at? (c : Code) (pc : Point) : Option Instr := c.slots[pc.toNat]?.join

@[simp] theorem at?_empty (pc : Point) : (∅ : Code).at? pc = none := rfl

theorem lt_size_of_at? {c : Code} {pc : Point} {i : Instr} (h : c.at? pc = some i) :
    pc.toNat < c.size := by
  obtain ⟨hlt, _⟩ := Array.getElem?_eq_some_iff.mp (Option.join_eq_some_iff.mp h)
  exact hlt

/-- The code with an instruction put at a point; the arena grows with empty slots as needed. -/
def set (c : Code) (pc : Point) (i : Instr) : Code :=
  if pc.toNat < c.slots.size then
    ⟨c.slots.set! pc.toNat (some i)⟩
  else
    ⟨(c.slots ++ Array.replicate (pc.toNat - c.slots.size) none).push (some i)⟩

/-- The instructions with their points, in increasing order of the points. -/
def lines (c : Code) : List (Point × Instr) :=
  c.slots.toList.zipIdx.filterMap fun (slot, n) => slot.map ((UInt32.ofNat n, ·))

/-- The points that hold an instruction, in increasing order. -/
def points (c : Code) : List Point := c.lines.map (·.1)

/-- The code with every instruction replaced by its image at its point. -/
def mapInstrs (f : Point → Instr → Instr) (c : Code) : Code :=
  ⟨c.slots.mapIdx fun n slot => slot.map (f (UInt32.ofNat n))⟩

end Code

/-! ## Functions -/

/-- A function: its parameters, the size in bytes of its stack block, and its code. -/
structure Function where
  name : String
  sig : Signature
  params : List Reg
  stackSize : Int64
  entry : Point
  code : Code
  deriving DecidableEq, Repr, Inhabited

/-- The function as it is written in a program. -/
def Function.text (f : Function) : String :=
  let line := fun (e : Point × Instr) => "\t" ++ toString e.1.toNat ++ ": " ++ e.2.text ++ "\n"
  "func " ++ f.name ++ "(" ++ Reg.listText f.params ++ ") " ++ f.sig.text ++ " stack "
    ++ toString f.stackSize.toInt ++ " entry " ++ toString f.entry.toNat ++ " \x7b\n"
    ++ String.join (f.code.lines.map line) ++ "\x7d\n"

/-! ## Programs -/

/-- A program.  A name of the table may stand without a definition; names outside the table are
those of external functions. -/
structure Program where
  main : String
  functions : FinMap String (Option Function)
  deriving DecidableEq, Inhabited

namespace Program

/-- The names of the program's table, in increasing order. -/
def names (p : Program) : List String := p.functions.keys

/-- The definition of a function, if the table has one. -/
def function? (p : Program) (name : String) : Option Function := (p.functions.get? name).join

/-- The functions that are defined, in the order of their names. -/
def definitions (p : Program) : List Function := p.functions.values.filterMap id

/-- The program as text: the name of its first function, unless it is empty, and the functions in
the order of their names. -/
def text (p : Program) : String :=
  let first := if p.main = "" then "" else "main " ++ p.main ++ "\n"
  first ++ String.join (p.definitions.map fun f => "\n" ++ f.text)

end Program

end RegisterTransfer
