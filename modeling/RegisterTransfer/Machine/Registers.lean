import RegisterTransfer.Instr
import RegisterTransfer.FinMap
import RegisterTransfer.Machine.Value
set_option autoImplicit false

/-!
# Register files

A register file gives values to finitely many registers.  Every other register reads as `undefined`.
-/

namespace RegisterTransfer

/-- A register file. -/
structure Registers where
  values : FinMap Reg Val
  deriving DecidableEq, Inhabited

namespace Registers

/-- The register file that gives no value. -/
def empty : Registers := ⟨∅⟩

instance : EmptyCollection Registers := ⟨empty⟩

/-- The value of a register. -/
def get (rs : Registers) (r : Reg) : Val :=
  match rs.values.get? r with
  | some v => v.read
  | none => .undefined

/-- The register file with a value given to a register. -/
def set (rs : Registers) (r : Reg) (v : Val) : Registers := ⟨rs.values.insert r v⟩

/-- The values of a list of registers. -/
def list (rs : Registers) (args : List Reg) : List Val := args.map rs.get

/-- The number of registers that were given a value. -/
def size (rs : Registers) : Nat := rs.values.size

/-- The register file of a call: the parameters take the arguments in order, as far as both go. -/
def ofParams (params : List Reg) (args : List Val) : Registers :=
  (params.zip args).foldl (fun rs (r, v) => rs.set r v) ∅

/-- The register file of a list of registers with their values. -/
def ofList (l : List (Reg × Val)) : Registers := ⟨FinMap.ofList l⟩

/-- Whether every register given a value in `rs` is less defined there than in `ws`. -/
def lessDefined (rs ws : Registers) : Bool :=
  rs.values.entries.all fun (r, v) => v.lessDefined (ws.get r)

/-- The text of a register file, in the order of the registers. -/
def text (rs : Registers) : String :=
  let entry := fun (e : Reg × Val) => e.1.text ++ "=" ++ e.2.text
  "\x7b" ++ ", ".intercalate (rs.values.entries.map entry) ++ "\x7d"

end Registers

end RegisterTransfer
