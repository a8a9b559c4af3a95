import RegisterTransfer.Machine.Evaluation
import RegisterTransfer.Machine.State
set_option autoImplicit false

/-!
# Steps of the machine

One step executes an instruction, enters a function or returns from one.  A call of a function that
the program does not define is answered by an external function, and is an event.  A state without
a successor is stuck, for one of the reasons in `StuckReason`.
-/

namespace RegisterTransfer

/-- An observable call of an external function. -/
structure Event where
  name : String
  args : List Val
  result : Val
  deriving DecidableEq, Repr, Inhabited

/-- The text of an event. -/
def Event.text (e : Event) : String :=
  e.name ++ "(" ++ ", ".intercalate (e.args.map Val.text) ++ ") = " ++ e.result.text

/-- The external functions, by their names.  A result of `absent` counts as `undefined`. -/
abbrev Externals := String → Option (List Val → Val)

/-- Why a state has no successor. -/
inductive StuckReason
  | final
  | undefinedFunction (name : String)
  | noInstruction (pc : Point)
  | badOperation (instr : Instr)
  | badAddress (instr : Instr)
  | memory (error : MemoryError)
  | notFunction (v : Val)
  | signature (name : String) (actual expected : Signature)
  | undefinedCondition (instr : Instr)
  deriving DecidableEq, Repr

/-- The reason in words. -/
def StuckReason.message : StuckReason → String
  | .final => "final state"
  | .undefinedFunction name => "undefined function " ++ name
  | .noInstruction pc => "no instruction at " ++ toString pc.toNat
  | .badOperation i => "bad operation: " ++ i.text
  | .badAddress i => "bad address: " ++ i.text
  | .memory e => e.message
  | .notFunction v => "indirect call through non-function " ++ v.text
  | .signature name actual expected =>
    "call of " ++ name ++ " with signature " ++ actual.text ++ ", expected " ++ expected.text
  | .undefinedCondition i => "undefined condition: " ++ i.text

/-- A stuck state with the reason. -/
structure Stuck where
  state : State
  reason : StuckReason
  deriving DecidableEq

/-- The stuck state and the reason in words. -/
def Stuck.message (s : Stuck) : String :=
  "stuck: " ++ s.state.text ++ ": " ++ s.reason.message

/-! ## Calls -/

/-- The name of a function, if it can be called with a signature: a function of the program must
have that signature. -/
def Program.callable (p : Program) (sig : Signature) (name : String) : Except StuckReason String :=
  match p.function? name with
  | some f => if f.sig = sig then .ok name else .error (.signature name sig f.sig)
  | none => .ok name

/-- The function that a callee names, or the reason why it names none that can be called. -/
def Callee.resolve (p : Program) (regs : Registers) (sig : Signature) (callee : Callee) :
    Except StuckReason String :=
  match callee with
  | .symbol name => p.callable sig name
  | .register r =>
    match regs.get r with
    | .func name => p.callable sig name
    | v => .error (.notFunction v)

/-- The state in which a function starts, with a new stack block. -/
def State.enter (stack : List Frame) (m : Memory) (f : Function) (args : List Val) : State :=
  let (m, sp) := m.alloc 0 f.stackSize
  ⟨stack, m, .running f sp f.entry (.ofParams f.params args)⟩

/-- Enters a function of the program, or calls an external one. -/
def State.call (p : Program) (externals : Externals) (stack : List Frame) (m : Memory)
    (callee : String) (args : List Val) : Except StuckReason (State × Option Event) :=
  match p.functions.get? callee with
  | some (some f) => .ok (.enter stack m f args, none)
  | some none => .error (.undefinedFunction callee)
  | none =>
    match externals callee with
    | some external =>
      let result := (external args).read
      .ok (⟨stack, m, .returning result⟩, some ⟨callee, args, result⟩)
    | none => .error (.undefinedFunction callee)

/-! ## Instructions -/

/-- A result, or the reason for its absence. -/
def orStuck {α : Type} (reason : StuckReason) : Option α → Except StuckReason α
  | some a => .ok a
  | none => .error reason

/-- The result of a memory operation as that of a step. -/
def ofMemory {α : Type} : Except MemoryError α → Except StuckReason α
  | .ok a => .ok a
  | .error e => .error (.memory e)

/-- Executes an instruction of a function. -/
def Instr.execute (p : Program) (stack : List Frame) (m : Memory) (f : Function) (sp : Block)
    (regs : Registers) (i : Instr) : Except StuckReason State :=
  match i with
  | .nop succ => .ok ⟨stack, m, .running f sp succ regs⟩
  | .op o args dest succ => do
    let v ← orStuck (.badOperation i) (o.eval? (regs.list args))
    .ok ⟨stack, m, .running f sp succ (regs.set dest v)⟩
  | .load c a args dest succ => do
    let (b, ofs) ← orStuck (.badAddress i) (a.eval? sp (regs.list args))
    let v ← ofMemory (m.load c b ofs)
    .ok ⟨stack, m, .running f sp succ (regs.set dest v)⟩
  | .store c a args src succ => do
    let (b, ofs) ← orStuck (.badAddress i) (a.eval? sp (regs.list args))
    let m ← ofMemory (m.store c b ofs (regs.get src))
    .ok ⟨stack, m, .running f sp succ regs⟩
  | .call sig callee args dest succ => do
    let name ← callee.resolve p regs sig
    .ok ⟨⟨dest, f, sp, succ, regs⟩ :: stack, m, .calling name (regs.list args)⟩
  | .tailcall sig callee args => do
    let name ← callee.resolve p regs sig
    let m ← ofMemory (m.free sp)
    .ok ⟨stack, m, .calling name (regs.list args)⟩
  | .cond c args ifTrue ifFalse => do
    let b ← orStuck (.undefinedCondition i) (c.eval? (regs.list args))
    .ok ⟨stack, m, .running f sp (if b then ifTrue else ifFalse) regs⟩
  | .ret value => do
    let m ← ofMemory (m.free sp)
    .ok ⟨stack, m, .returning ((value.map regs.get).getD .undefined)⟩

/-! ## Steps -/

/-- The successor of a state and the event of the step, or the reason why there is none. -/
def State.step (p : Program) (externals : Externals) (s : State) :
    Except StuckReason (State × Option Event) :=
  match s.control with
  | .running f sp pc regs => do
    let i ← orStuck (.noInstruction pc) (f.code.at? pc)
    let s' ← i.execute p s.stack s.memory f sp regs
    .ok (s', none)
  | .calling callee args => State.call p externals s.stack s.memory callee args
  | .returning v =>
    match s.stack with
    | [] => .error .final
    | fr :: stack =>
      .ok (⟨stack, s.memory, .running fr.function fr.sp fr.pc (fr.regs.set fr.result v)⟩, none)

end RegisterTransfer
