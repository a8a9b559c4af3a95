import RegisterTransfer.Machine.Extension
import RegisterTransfer.Machine.Step
import RegisterTransfer.Simulation.Frame
import RegisterTransfer.TailCall.Epilogue
set_option autoImplicit false

/-!
# Matching states

When a target program makes a tail call where its source makes a call, the source has a frame that
the target has not.  A `Witness` says which frames of the source these are.  A source state matches
a target state if the target's memory extends the source's, both stacks are sound, the remaining
frames agree one by one, every elided frame resumes an epilogue, and both are about to do the same,
the target with values at least as defined; or the target has returned while the source still works
off an epilogue.
-/

namespace RegisterTransfer

/-- How the frames of a source correspond to those of its target. -/
structure Witness where
  /-- For every source frame, the innermost first, whether the target has no frame for it. -/
  elided : List Bool
  /-- The register that holds the value being returned while the source runs an epilogue. -/
  expect : Reg
  deriving DecidableEq, Repr, Inhabited

/-- The witness at the start. -/
def Witness.start : Witness := ⟨[], 0⟩

/-- What the machine is about to do, without its operands. -/
inductive ControlKind
  | running
  | calling
  | returning
  deriving DecidableEq, Repr

/-- The kind of a control. -/
def Control.kind : Control → ControlKind
  | .running .. => .running
  | .calling .. => .calling
  | .returning .. => .returning

/-- The kind as it is named in reports. -/
def ControlKind.text : ControlKind → String
  | .running => "*interp.Running"
  | .calling => "*interp.Calling"
  | .returning => "*interp.ReturningTo"

/-- Why a source and a target no longer correspond.  Of two things, the source's comes first. -/
inductive Reason
  | memory (m : Mismatch)
  | sourceFrame (e : FrameError)
  | targetFrame (e : FrameError)
  | elidedStack (n : Nat) (name : String) (size : Int64)
  | elidedResume (n : Nat) (name : String) (pc : Point) (r : Reg)
  | noTargetFrame (n : Nat) (name : String)
  | frameResume (n : Nat) (source target : Frame)
  | frameBlock (n : Nat) (b b' : Block)
  | frameRegisters (n : Nat) (rs rs' : Registers)
  | frameCount (target source : Nat)
  | position (name : String) (pc : Point) (name' : String) (pc' : Point)
  | block (b b' : Block)
  | registers (rs rs' : Registers)
  | epilogueStack (name : String) (size : Int64)
  | notEpilogue (name : String) (pc : Point) (r : Reg)
  | epilogueValue (v w : Val)
  | callee (name name' : String)
  | arguments (vs ws : List Val)
  | returnValue (v w : Val)
  | kinds (source target : ControlKind)
  | targetEvent (e : Event)
  | sourceEvent (e : Event)
  | events (e f : Event)
  | initial (r : Reason)
  | targetNotFinal
  | skippedEvent (e : Event)
  | measure (before after : Int64)
  | skippedSteps (steps : Nat) (start : Int64)
  | targetStuck (s : Stuck)
  deriving DecidableEq

/-- The reason in words. -/
def Reason.message : Reason → String
  | .memory m => "memory: " ++ m.message
  | .sourceFrame e => "source frame: " ++ e.message
  | .targetFrame e => "target frame: " ++ e.message
  | .elidedStack n name size =>
    "elided frame " ++ toString n ++ " of " ++ name ++ " has stack size " ++ toString size.toInt
  | .elidedResume n name pc r =>
    "elided frame " ++ toString n ++ " resumes " ++ name ++ ":" ++ toString pc.toNat
      ++ ", not an epilogue returning " ++ r.text
  | .noTargetFrame n name =>
    "source frame " ++ toString n ++ " (" ++ name ++ ") has no target frame"
  | .frameResume n s t =>
    "source frame " ++ toString n ++ " resumes " ++ s.function.name ++ ":" ++ toString s.pc.toNat
      ++ " into " ++ s.result.text ++ ", target frame resumes " ++ t.function.name ++ ":"
      ++ toString t.pc.toNat ++ " into " ++ t.result.text
  | .frameBlock n b b' =>
    "source frame " ++ toString n ++ " block b" ++ toString b.toNat ++ ", target block b"
      ++ toString b'.toNat
  | .frameRegisters n rs rs' =>
    "source frame " ++ toString n ++ " registers " ++ rs.text ++ " not less defined than "
      ++ rs'.text
  | .frameCount target source =>
    "target has " ++ toString target ++ " frames, source has " ++ toString source
      ++ " corresponding frames"
  | .position name pc name' pc' =>
    "source at " ++ name ++ ":" ++ toString pc.toNat ++ ", target at " ++ name' ++ ":"
      ++ toString pc'.toNat
  | .block b b' =>
    "source frame b" ++ toString b.toNat ++ ", target frame b" ++ toString b'.toNat
  | .registers rs rs' => "registers " ++ rs.text ++ " not less defined than " ++ rs'.text
  | .epilogueStack name size =>
    "epilogue in " ++ name ++ " with stack size " ++ toString size.toInt
  | .notEpilogue name pc r =>
    name ++ ":" ++ toString pc.toNat ++ " is not an epilogue returning " ++ r.text
  | .epilogueValue v w => "epilogue value " ++ v.text ++ " not less defined than " ++ w.text
  | .callee name name' => "source calling " ++ name ++ ", target calling " ++ name'
  | .arguments vs ws =>
    "arguments " ++ Val.listText vs ++ " not less defined than " ++ Val.listText ws
  | .returnValue v w => "return value " ++ v.text ++ " not less defined than " ++ w.text
  | .kinds s t => "source " ++ s.text ++ ", target " ++ t.text
  | .targetEvent e => "target event " ++ e.text ++ ", source has none"
  | .sourceEvent e => "source event " ++ e.text ++ ", target has none"
  | .events e f => "source event " ++ e.text ++ ", target event " ++ f.text
  | .initial r => "initial states: " ++ r.message
  | .targetNotFinal => "source returned, target has not"
  | .skippedEvent e => "event " ++ e.text ++ " on a step the target skips"
  | .measure before after =>
    "skipped step does not decrease the measure: " ++ toString before.toInt ++ " to "
      ++ toString after.toInt
  | .skippedSteps steps start =>
    toString steps ++ " skipped steps from measure " ++ toString start.toInt
  | .targetStuck s => "target: " ++ s.message

/-! ## Stacks -/

/-- Why a source frame does not agree with the target frame that stands for it. -/
def Frame.mismatch? (n : Nat) (s t : Frame) : Option Reason :=
  if s.function.name ≠ t.function.name ∨ s.pc ≠ t.pc ∨ s.result ≠ t.result then
    some (.frameResume n s t)
  else if s.sp ≠ t.sp then some (.frameBlock n s.sp t.sp)
  else if !s.regs.lessDefined t.regs then some (.frameRegisters n s.regs t.regs)
  else none

/-- Why a source frame cannot stand without a target frame. -/
def Frame.elision? (bound : Int) (n : Nat) (fr : Frame) : Option Reason :=
  if fr.function.stackSize ≠ 0 then
    some (.elidedStack n fr.function.name fr.function.stackSize)
  else if !fr.function.code.isReturn fr.pc fr.result bound then
    some (.elidedResume n fr.function.name fr.pc fr.result)
  else none

/-- Why source frames, with whether they are elided, do not match target frames, both the outermost
first.  `n` source frames and `matched` target frames of `total` came before. -/
def Witness.stackMismatch? (bound : Int) (total : Nat) :
    Nat → Nat → List (Frame × Bool) → List Frame → Option Reason
  | _, matched, [], [] => if matched = total then none else some (.frameCount total matched)
  | _, matched, [], _ :: _ => some (.frameCount total matched)
  | n, matched, (fr, true) :: rest, ts =>
    match fr.elision? bound n with
    | some r => some r
    | none => stackMismatch? bound total (n + 1) matched rest ts
  | n, _, (fr, false) :: _, [] => some (.noTargetFrame n fr.function.name)
  | n, matched, (fr, false) :: rest, t :: ts =>
    match fr.mismatch? n t with
    | some r => some r
    | none => stackMismatch? bound total (n + 1) (matched + 1) rest ts

/-! ## States -/

/-- Why what the source is about to do does not match what the target is about to do. -/
def Witness.controlMismatch? (bound : Int) (w : Witness) (s t : Control) : Option Reason :=
  match s, t with
  | .running f sp pc regs, .running f' sp' pc' regs' =>
    if f.name ≠ f'.name ∨ pc ≠ pc' then some (.position f.name pc f'.name pc')
    else if sp ≠ sp' then some (.block sp sp')
    else if !regs.lessDefined regs' then some (.registers regs regs')
    else none
  | .running f _ pc regs, .returning v =>
    if f.stackSize ≠ 0 then some (.epilogueStack f.name f.stackSize)
    else if !f.code.isReturn pc w.expect bound then some (.notEpilogue f.name pc w.expect)
    else if !(regs.get w.expect).lessDefined v then some (.epilogueValue (regs.get w.expect) v)
    else none
  | .calling callee args, .calling callee' args' =>
    if callee ≠ callee' then some (.callee callee callee')
    else if !Val.listLessDefined args args' then some (.arguments args args')
    else none
  | .returning v, .returning v' => if v.lessDefined v' then none else some (.returnValue v v')
  | s, t => some (.kinds s.kind t.kind)

/-- Why a source state does not match a target state. -/
def Witness.mismatch? (bound : Int) (w : Witness) (s t : State) : Option Reason :=
  ((s.memory.mismatch? t.memory).map .memory)
  <|> s.stackError?.map .sourceFrame
  <|> t.stackError?.map .targetFrame
  <|> stackMismatch? bound t.stack.length 0 0 (s.stack.zip w.elided).reverse t.stack.reverse
  <|> w.controlMismatch? bound s.control t.control

/-- Why the event of a source step does not match that of the target step. -/
def Event.mismatch? : Option Event → Option Event → Option Reason
  | none, none => none
  | none, some f => some (.targetEvent f)
  | some e, none => some (.sourceEvent e)
  | some e, some f =>
    if e.name = f.name ∧ Val.listLessDefined e.args f.args ∧ e.result.lessDefined f.result then
      none
    else
      some (.events e f)

end RegisterTransfer
