import RegisterTransfer.Program
import RegisterTransfer.Text.Quoted
set_option autoImplicit false

/-!
# Well-formed programs

A program is well formed if its first function is in the table, every name of the table is defined
under that name, and every function has a sensible header, an instruction at its entry point and
after every instruction, and the right number of arguments in each of them.
`Program.malformed?` gives the first defect, in the order of names and points.
-/

namespace RegisterTransfer

/-- What is wrong with a program. -/
inductive Defect
  | mainUndefined (name : String)
  | noDefinition
  | misnamed (name : String)
  | negativeStack (size : Int64)
  | parameterCount (params args : Nat)
  | noEntry (entry : Point)
  | noSuccessor (succ : Point)
  | unknownOperation (kind : Int)
  | argumentCount (got want : Nat) (instr : Instr)
  deriving DecidableEq, Repr

/-- The defect in words. -/
def Defect.message : Defect → String
  | .mainUndefined name => "main function " ++ Text.quoted name ++ " is not defined"
  | .noDefinition => "function has no definition"
  | .misnamed name => "function is named " ++ Text.quoted name
  | .negativeStack size => "negative stack size " ++ toString size.toInt
  | .parameterCount params args =>
    toString params ++ " parameters, but signature has " ++ toString args ++ " arguments"
  | .noEntry entry => "entry point " ++ toString entry.toNat ++ " has no instruction"
  | .noSuccessor succ => "successor " ++ toString succ.toNat ++ " has no instruction"
  | .unknownOperation kind => "unknown operation " ++ toString kind
  | .argumentCount got want instr =>
    toString got ++ " arguments, expected " ++ toString want ++ ": " ++ instr.text

/-- A defect with its place: the function, unless it is empty, and the point, unless it is zero. -/
structure Malformed where
  function : String
  point : Point
  defect : Defect
  deriving DecidableEq, Repr

/-- The defect and its place in words. -/
def Malformed.message (m : Malformed) : String :=
  if m.function = "" then m.defect.message
  else if m.point = 0 then m.function ++ ": " ++ m.defect.message
  else m.function ++ ":" ++ toString m.point.toNat ++ ": " ++ m.defect.message

/-! ## Instructions -/

/-- The number of arguments that a signature wants of a call that passes `got`: a variable number
of arguments accepts any number beyond the listed ones. -/
def Signature.wants (s : Signature) (got : Nat) : Nat :=
  if s.varargs ∧ s.args.length ≤ got then got else s.args.length

namespace Instr

/-- The defect in a number of arguments, if it is not the wanted one. -/
def countDefect? (i : Instr) (got want : Nat) : Option Defect :=
  if got = want then none else some (.argumentCount got want i)

/-- The defect in the arguments of an instruction, if there is one. -/
def argumentDefect? (i : Instr) : Option Defect :=
  match i with
  | .nop _ | .ret _ => none
  | .op o args _ _ =>
    match o.arity? with
    | none => some (.unknownOperation o.kind)
    | some want => i.countDefect? args.length want
  | .load _ a args _ _ | .store _ a args _ _ => i.countDefect? args.length a.arity
  | .call sig _ args _ _ | .tailcall sig _ args =>
    i.countDefect? args.length (sig.wants args.length)
  | .cond c args _ _ => i.countDefect? args.length c.arity

/-- The first defect of an instruction of some code. -/
def defect? (code : Code) (i : Instr) : Option Defect :=
  match i.successors.find? fun s => (code.at? s).isNone with
  | some s => some (.noSuccessor s)
  | none => i.argumentDefect?

end Instr

/-! ## Functions and programs -/

/-- The first defect of a function. -/
def Function.malformed? (f : Function) : Option Malformed :=
  if f.stackSize < 0 then some ⟨f.name, 0, .negativeStack f.stackSize⟩
  else if f.params.length ≠ f.sig.args.length then
    some ⟨f.name, 0, .parameterCount f.params.length f.sig.args.length⟩
  else if (f.code.at? f.entry).isNone then some ⟨f.name, 0, .noEntry f.entry⟩
  else f.code.lines.findSome? fun (pc, i) => (i.defect? f.code).map (⟨f.name, pc, ·⟩)

/-- The first defect of an entry of the table. -/
def Program.entryMalformed? (name : String) : Option Function → Option Malformed
  | none => some ⟨name, 0, .noDefinition⟩
  | some f => if f.name ≠ name then some ⟨name, 0, .misnamed f.name⟩ else f.malformed?

/-- The first defect of a program. -/
def Program.malformed? (p : Program) : Option Malformed :=
  if p.functions.contains p.main then
    p.functions.entries.findSome? fun (name, f) => entryMalformed? name f
  else
    some ⟨"", 0, .mainUndefined p.main⟩

/-- A program without defects. -/
def Program.Wellformed (p : Program) : Prop := p.malformed? = none

instance (p : Program) : Decidable p.Wellformed := inferInstanceAs (Decidable (_ = _))

end RegisterTransfer
