import RegisterTransfer.TailCall.Config
import RegisterTransfer.TailCall.Epilogue
import RegisterTransfer.Wellformed
set_option autoImplicit false

/-!
# Converting calls into tail calls

A call becomes a tail call if its function has no stack block, the calling convention lets the
callee reuse the frame, and the code after the call does nothing but return the call's result.
Everything else stays as it is, also the code after a converted call.
-/

namespace RegisterTransfer

/-! ## Which calls are converted -/

/-- Why a call cannot become a tail call. -/
inductive Obstacle
  | stackSize (size : Int64)
  | signature
  | noEpilogue
  deriving DecidableEq, Repr

/-- The obstacle in words. -/
def Obstacle.message : Obstacle → String
  | .stackSize size => "stack size " ++ toString size.toInt
  | .signature => "signature"
  | .noEpilogue => "no epilogue"

/-- The rule of a conversion: how far it looks for an epilogue, and the calling convention. -/
structure Rule where
  bound : Int
  abi : Abi

/-- The rule of the settings. -/
def Config.rule (c : Config) : Rule := ⟨c.bound, c.abi⟩

namespace Function

/-- Why a call of `f` with a signature, a destination and a successor cannot become a tail call. -/
def obstacle? (f : Function) (rule : Rule) (sig : Signature) (dest : Reg) (succ : Point) :
    Option Obstacle :=
  if f.stackSize ≠ 0 then some (.stackSize f.stackSize)
  else if !rule.abi sig f.sig then some .signature
  else if !f.code.isReturn succ dest rule.bound then some .noEpilogue
  else none

/-- Whether the call at a point becomes a tail call. -/
def eligible (f : Function) (rule : Rule) (pc : Point) : Bool :=
  match f.code.at? pc with
  | some (.call sig _ _ dest succ) => (f.obstacle? rule sig dest succ).isNone
  | _ => false

/-- What becomes of an instruction. -/
def convert (f : Function) (rule : Rule) (i : Instr) : Instr :=
  match i with
  | .call sig callee args dest succ =>
    if (f.obstacle? rule sig dest succ).isNone then .tailcall sig callee args else i
  | _ => i

/-- The function with its eligible calls turned into tail calls. -/
def transform (f : Function) (rule : Rule) : Function :=
  { f with code := f.code.mapInstrs fun _ i => f.convert rule i }

/-- The decision on the call at a point, as a line of the trace. -/
def decision? (f : Function) (rule : Rule) (pc : Point) (i : Instr) : Option String :=
  match i with
  | .call sig _ _ dest succ =>
    let verdict :=
      match f.obstacle? rule sig dest succ with
      | none => "tail call"
      | some o => "not a tail call (" ++ o.message ++ ")"
    some (f.name ++ ":" ++ toString pc.toNat ++ ": " ++ verdict ++ ": " ++ i.text ++ "\n")
  | _ => none

/-- The decisions on the calls of a function, in the order of their points. -/
def trace (f : Function) (rule : Rule) : String :=
  String.join (f.code.lines.filterMap fun (pc, i) => f.decision? rule pc i)

end Function

/-! ## Programs -/

/-- Why a conversion was interrupted. -/
inductive Interruption
  | canceled
  | deadline
  deriving DecidableEq, Repr

/-- The interruption in words. -/
def Interruption.message : Interruption → String
  | .canceled => "context canceled"
  | .deadline => "context deadline exceeded"

/-- Why a program is not converted. -/
inductive TransformError
  | config (e : ConfigError)
  | malformed (m : Malformed)
  | interrupted (i : Interruption)
  /-- The trace could not be written. -/
  | brokenTrace
  deriving DecidableEq

/-- The error in words. -/
def TransformError.message : TransformError → String
  | .config e => e.message
  | .malformed m => m.message
  | .interrupted i => i.message
  | .brokenTrace => "broken writer"

/-- Why a program cannot be converted with some settings, found before the conversion starts. -/
def Program.refusal? (p : Program) (c : Config) : Option TransformError :=
  match c.error? with
  | some e => some (.config e)
  | none => p.malformed?.map .malformed

/-- The program with every function converted. -/
def Program.mapTransform (p : Program) (rule : Rule) : Program :=
  { p with functions := p.functions.map fun _ f => f.map (·.transform rule) }

/-- The program with its eligible calls turned into tail calls. -/
def Program.transform (p : Program) (c : Config) (abi : Abi) : Except TransformError Program :=
  match p.refusal? c with
  | some e => .error e
  | none => .ok (p.mapTransform ⟨c.bound, abi⟩)

/-- The decisions on the calls of a program, in the order of names and points. -/
def Program.transformTrace (p : Program) (rule : Rule) : String :=
  String.join (p.definitions.map (·.trace rule))

end RegisterTransfer
