import RegisterTransfer.Proofs.Reachability
set_option autoImplicit false

/-!
# How well-formed programs fail

Every point that a state of a well-formed program will continue at holds an instruction
(`State.Located`), and every instruction has as many arguments as it needs.  Where such a program is
stuck, this is therefore owed to the values that it has computed, to the memory, or to a function
that is not there: `State.Failure` lists what remains, and `Program.Reaches.failure_iff` says that a
step fails exactly so.
-/

namespace RegisterTransfer

/-! ## Results of the right number of operands -/

/-- An operation on as many operands as it takes has a result. -/
theorem Operation.eval?_ne_none {o : Operation} {vs : List Val} (h : o.arity? = some vs.length) :
    o.eval? vs ≠ none := by
  rcases vs with _ | ⟨v, _ | ⟨w, _ | ⟨x, rest⟩⟩⟩
  all_goals cases o <;> simp_all [arity?, eval?]

/-- An addressing mode with as many operands as it takes gives no address if its base is no pointer,
or if the mode is unknown. -/
theorem Addressing.eval?_eq_none_cases {a : Addressing} {sp : Block} {regs : Registers}
    {args : List Reg} (hcount : args.length = a.arity) (h : a.eval? sp (regs.list args) = none) :
    (∃ n r, a = .indexed n ∧ args = [r] ∧ ∀ b ofs, regs.get r ≠ .ptr b ofs) ∨
      ∃ k n, a = .other k n := by
  cases a with
  | stack n =>
    obtain rfl : args = [] := List.length_eq_zero_iff.mp hcount
    cases h
  | indexed n =>
    obtain ⟨r, rfl⟩ := List.length_eq_one_iff.mp hcount
    refine .inl ⟨n, r, rfl, rfl, fun b ofs hptr => ?_⟩
    simp [Registers.list, hptr, eval?] at h
  | other k n => exact .inr ⟨k, n, rfl⟩

theorem Comparison.eval?_eq_none_iff {c : Comparison} {x y : Int64} :
    c.eval? x y = none ↔ ∃ n, c = .other n := by
  cases c <;> simp [eval?]

namespace Condition

/-- Operands that a condition can compare: numbers of one width, one of them if the condition has a
constant, and two if it has none. -/
def Comparable (c : Condition) : List Val → Prop
  | [.int _] | [.long _] => c.imm.isSome
  | [.int _, .int _] | [.long _, .long _] => c.imm.isNone
  | _ => False

/-- A condition is undefined if its operands cannot be compared, or if its comparison is unknown. -/
theorem eval?_eq_none_iff {c : Condition} {vs : List Val} :
    c.eval? vs = none ↔ ¬ c.Comparable vs ∨ ∃ n, c.comparison = .other n := by
  unfold eval? Comparable
  split
  · simp_all [Comparison.eval?_eq_none_iff]
  · simp_all [Comparison.eval?_eq_none_iff]
  · simp_all [Comparison.eval?_eq_none_iff]
  · simp_all [Comparison.eval?_eq_none_iff]
  · rename_i hint hlong hints hlongs
    simp only [true_iff]
    left
    split
    · rename_i x
      cases himm : c.imm with
      | none => simp
      | some n => exact absurd rfl (hint n x himm)
    · rename_i x
      cases himm : c.imm with
      | none => simp
      | some n => exact absurd rfl (hlong n x himm)
    · rename_i x y
      cases himm : c.imm with
      | none => exact absurd rfl (hints x y himm)
      | some n => simp
    · rename_i x y
      cases himm : c.imm with
      | none => exact absurd rfl (hlongs x y himm)
      | some n => simp
    · exact id

end Condition

/-! ## Arguments of sound instructions -/

namespace Instr

theorem countDefect?_eq_none_iff {i : Instr} {got want : Nat} :
    i.countDefect? got want = none ↔ got = want := by
  unfold countDefect?
  split <;> simp_all

theorem arity?_of_argumentDefect? {o : Operation} {args : List Reg} {dest : Reg} {succ : Point}
    (h : (op o args dest succ).argumentDefect? = none) : o.arity? = some args.length := by
  unfold argumentDefect? at h
  cases harity : o.arity? with
  | none => simp [harity] at h
  | some want =>
    simp only [harity] at h
    rw [countDefect?_eq_none_iff.mp h]

theorem length_of_access? {i : Instr} {c : Chunk} {a : Addressing} {args : List Reg}
    (haccess : i.access? = some (c, a, args)) (h : i.argumentDefect? = none) :
    args.length = a.arity := by
  cases i with
  | load | store =>
    cases haccess
    exact countDefect?_eq_none_iff.mp h
  | _ => cases haccess

theorem length_of_cond {c : Condition} {args : List Reg} {ifTrue ifFalse : Point}
    (h : (cond c args ifTrue ifFalse).argumentDefect? = none) : args.length = c.arity :=
  countDefect?_eq_none_iff.mp h

end Instr

/-! ## Points that hold an instruction -/

namespace Program

variable {p : Program} {f : Function} {pc succ : Point} {i : Instr} {name : String}

/-- A point of a function of the program at which there is an instruction. -/
def HasPoint (p : Program) (f : Function) (pc : Point) : Prop :=
  (∃ name, p.function? name = some f) ∧ f.code.at? pc ≠ none

theorem Wellformed.function (hp : p.Wellformed) (hf : p.function? name = some f) :
    f.malformed? = none := by
  obtain ⟨_, hfunctions⟩ := malformed?_eq_none_iff.mp hp
  obtain ⟨_, heq, _, hmalformed⟩ := hfunctions name _ (Option.join_eq_some_iff.mp hf)
  cases heq
  exact hmalformed

theorem Wellformed.hasPoint_entry (hp : p.Wellformed) (hf : p.function? name = some f) :
    p.HasPoint f f.entry := by
  obtain ⟨_, _, hentry, _⟩ := Function.malformed?_eq_none_iff.mp (hp.function hf)
  exact ⟨⟨name, hf⟩, hentry⟩

/-- The instruction at a point of a well-formed program has no defect. -/
theorem Wellformed.defect? (hp : p.Wellformed) (hpoint : p.HasPoint f pc)
    (hi : f.code.at? pc = some i) : i.defect? f.code = none := by
  obtain ⟨⟨name, hf⟩, _⟩ := hpoint
  obtain ⟨_, _, _, hlines⟩ := Function.malformed?_eq_none_iff.mp (hp.function hf)
  exact hlines pc i (Code.mem_lines_of_at? hi)

theorem Wellformed.hasPoint_successor (hp : p.Wellformed) (hpoint : p.HasPoint f pc)
    (hi : f.code.at? pc = some i) (hsucc : succ ∈ i.successors) : p.HasPoint f succ := by
  obtain ⟨hsuccessors, _⟩ := Instr.defect?_eq_none_iff.mp (hp.defect? hpoint hi)
  exact ⟨hpoint.1, hsuccessors succ hsucc⟩

end Program

/-! ## Located states -/

/-- Every point at which a state continues, now or after a return, holds an instruction. -/
structure State.Located (p : Program) (s : State) : Prop where
  stack : ∀ fr ∈ s.stack, p.HasPoint fr.function fr.pc
  control : ∀ f sp pc regs, s.control = .running f sp pc regs → p.HasPoint f pc

namespace State

variable {p : Program} {externals : Externals} {s s' : State} {e : Option Event}

theorem Located.initial (p : Program) : (initial p).Located p where
  stack := List.forall_mem_nil _
  control := by
    intro f sp pc regs h
    cases h

theorem Located.execute {stack : List Frame} {m : Memory} {f : Function} {sp : Block} {pc : Point}
    {regs : Registers} {i : Instr} (hp : p.Wellformed)
    (h : Located p ⟨stack, m, .running f sp pc regs⟩) (hi : f.code.at? pc = some i)
    (hexecute : i.execute p stack m f sp regs = .ok s') : s'.Located p := by
  obtain ⟨hstack, hcontrol⟩ := h
  have hpoint : p.HasPoint f pc := hcontrol f sp pc regs rfl
  have hsucc : ∀ succ ∈ i.successors, p.HasPoint f succ :=
    fun succ => hp.hasPoint_successor hpoint hi
  -- A function that goes on does so at a successor of its instruction.
  have hgo : ∀ succ ∈ i.successors, ∀ m' regs',
      Located p ⟨stack, m', .running f sp succ regs'⟩ := by
    intro succ hmem m' regs'
    refine ⟨hstack, fun _ _ _ _ heq => ?_⟩
    cases heq
    exact hsucc succ hmem
  cases i with
  | nop succ =>
    cases hexecute
    exact hgo succ (by simp [Instr.successors]) _ _
  | op o args dest succ =>
    obtain ⟨v, _, rfl⟩ := Instr.execute_op_iff.mp hexecute
    exact hgo succ (by simp [Instr.successors]) _ _
  | load c a args dest succ =>
    obtain ⟨b, ofs, _, v, _, rfl⟩ := Instr.execute_load_iff.mp hexecute
    exact hgo succ (by simp [Instr.successors]) _ _
  | store c a args src succ =>
    obtain ⟨b, ofs, _, m', _, rfl⟩ := Instr.execute_store_iff.mp hexecute
    exact hgo succ (by simp [Instr.successors]) _ _
  | call sig callee args dest succ =>
    obtain ⟨name, _, rfl⟩ := Instr.execute_call_iff.mp hexecute
    refine ⟨List.forall_mem_cons.mpr ⟨hsucc succ (by simp [Instr.successors]), hstack⟩, ?_⟩
    intro _ _ _ _ heq
    cases heq
  | tailcall sig callee args =>
    obtain ⟨name, _, m', _, rfl⟩ := Instr.execute_tailcall_iff.mp hexecute
    exact ⟨hstack, fun _ _ _ _ heq => by cases heq⟩
  | cond c args ifTrue ifFalse =>
    obtain ⟨b, _, rfl⟩ := Instr.execute_cond_iff.mp hexecute
    apply hgo
    cases b <;> simp [Instr.successors]
  | ret value =>
    obtain ⟨m', _, rfl⟩ := Instr.execute_ret_iff.mp hexecute
    exact ⟨hstack, fun _ _ _ _ heq => by cases heq⟩

/-- A step leads from points that hold an instruction to such points. -/
theorem Located.step (hp : p.Wellformed) (h : s.Located p)
    (hstep : s.step p externals = .ok (s', e)) : s'.Located p := by
  obtain ⟨stack, m, control⟩ := s
  cases control with
  | running f sp pc regs =>
    obtain ⟨_, i, hi, hexecute⟩ := step_running_iff.mp hstep
    exact h.execute hp hi hexecute
  | calling callee args =>
    rcases call_eq_ok_iff.mp hstep with ⟨f, hf, rfl, _⟩ | ⟨_, external, _, rfl, _⟩
    · refine ⟨h.stack, fun _ _ _ _ heq => ?_⟩
      cases heq
      exact hp.hasPoint_entry (Option.join_eq_some_iff.mpr hf)
    · exact ⟨h.stack, fun _ _ _ _ heq => by cases heq⟩
  | returning v =>
    cases stack with
    | nil => cases hstep
    | cons fr stack =>
      cases hstep
      obtain ⟨hfr, hstack⟩ := List.forall_mem_cons.mp h.stack
      refine ⟨hstack, fun _ _ _ _ heq => ?_⟩
      cases heq
      exact hfr

/-! ## What is left to fail -/

/-- The state is about to execute `i`, in a function of block `sp` with registers `regs`. -/
def Executes (s : State) (sp : Block) (regs : Registers) (i : Instr) : Prop :=
  ∃ f pc, s.control = .running f sp pc regs ∧ f.code.at? pc = some i

/-- How a state of a well-formed program fails. -/
inductive Failure (p : Program) (externals : Externals) (s : State) : StuckReason → Prop
  /-- The function that is called is neither in the program nor among the external ones. -/
  | undefinedFunction {name : String} {args : List Val} (hcontrol : s.control = .calling name args)
      (htable : p.functions.get? name = none) (hexternals : externals name = none) :
      Failure p externals s (.undefinedFunction name)
  /-- The register that is called through holds no function. -/
  | notFunction {sp : Block} {regs : Registers} {i : Instr} {sig : Signature} {r : Reg}
      (hexecutes : s.Executes sp regs i) (hcallee : i.callee? = some (sig, .register r))
      (hvalue : ∀ name, regs.get r ≠ .func name) :
      Failure p externals s (.notFunction (regs.get r))
  /-- The function that is called has another signature. -/
  | signature {sp : Block} {regs : Registers} {i : Instr} {sig : Signature} {callee : Callee}
      {name : String} {f : Function} (hexecutes : s.Executes sp regs i)
      (hcallee : i.callee? = some (sig, callee)) (hname : callee.name? regs = some name)
      (hf : p.function? name = some f) (hsig : f.sig ≠ sig) :
      Failure p externals s (.signature name sig f.sig)
  /-- The operands of the condition are as many as it needs, but not numbers of one width. -/
  | operands {sp : Block} {regs : Registers} {c : Condition} {args : List Reg}
      {ifTrue ifFalse : Point} (hexecutes : s.Executes sp regs (.cond c args ifTrue ifFalse))
      (hcount : args.length = c.arity) (hkinds : ¬ c.Comparable (regs.list args)) :
      Failure p externals s (.undefinedCondition (.cond c args ifTrue ifFalse))
  /-- The comparison of the condition is unknown. -/
  | comparison {sp : Block} {regs : Registers} {c : Condition} {args : List Reg}
      {ifTrue ifFalse : Point} {n : Int}
      (hexecutes : s.Executes sp regs (.cond c args ifTrue ifFalse))
      (hcomparison : c.comparison = .other n) :
      Failure p externals s (.undefinedCondition (.cond c args ifTrue ifFalse))
  /-- The base of the access is no pointer. -/
  | base {sp : Block} {regs : Registers} {i : Instr} {c : Chunk} {n : Int64} {r : Reg}
      (hexecutes : s.Executes sp regs i) (haccess : i.access? = some (c, .indexed n, [r]))
      (hvalue : ∀ b ofs, regs.get r ≠ .ptr b ofs) : Failure p externals s (.badAddress i)
  /-- The addressing mode of the access is unknown. -/
  | addressing {sp : Block} {regs : Registers} {i : Instr} {c : Chunk} {k : Int} {n : Int64}
      {args : List Reg} (hexecutes : s.Executes sp regs i)
      (haccess : i.access? = some (c, .other k n, args)) : Failure p externals s (.badAddress i)
  /-- The memory refuses the access. -/
  | access {sp : Block} {regs : Registers} {i : Instr} {c : Chunk} {a : Addressing}
      {args : List Reg} {b : Block} {ofs : Int64} {e : MemoryError}
      (hexecutes : s.Executes sp regs i) (haccess : i.access? = some (c, a, args))
      (heval : a.eval? sp (regs.list args) = some (b, ofs))
      (hmemory : s.memory.access c b ofs = .error e) : Failure p externals s (.memory e)

variable {reason : StuckReason}

/-- The faults of an instruction without defects, where the block of its function can be freed. -/
theorem failure_of_fault {stack : List Frame} {m m' : Memory} {f : Function} {sp : Block}
    {pc : Point} {regs : Registers} {i : Instr} (hi : f.code.at? pc = some i)
    (harguments : i.argumentDefect? = none) (hfree : m.free sp = .ok m')
    (hfault : i.Fault p m sp regs reason) :
    Failure p externals ⟨stack, m, .running f sp pc regs⟩ reason := by
  have hexecutes : Executes ⟨stack, m, .running f sp pc regs⟩ sp regs i := ⟨f, pc, rfl, hi⟩
  cases hfault with
  | operation heval =>
    have harity := Instr.arity?_of_argumentDefect? harguments
    exact absurd heval (Operation.eval?_ne_none (by simpa [Registers.list] using harity))
  | address haccess heval =>
    have hcount := Instr.length_of_access? haccess harguments
    rcases Addressing.eval?_eq_none_cases hcount heval with ⟨n, r, rfl, rfl, hvalue⟩ | ⟨k, n, rfl⟩
    · exact .base hexecutes haccess hvalue
    · exact .addressing hexecutes haccess
  | access haccess heval hmemory => exact .access hexecutes haccess heval hmemory
  | callee hcallee hresolve =>
    rcases Callee.resolve_eq_error_iff.mp hresolve with
      ⟨r, rfl, hvalue, rfl⟩ | ⟨name, g, hname, hg, hsig, rfl⟩
    · exact .notFunction hexecutes hcallee hvalue
    · exact .signature hexecutes hcallee hname hg hsig
  | free _ _ herror =>
    rw [hfree] at herror
    cases herror
  | condition heval =>
    rcases Condition.eval?_eq_none_iff.mp heval with hkinds | ⟨n, hcomparison⟩
    · exact .operands hexecutes (Instr.length_of_cond harguments) hkinds
    · exact .comparison hexecutes hcomparison

/-- An instruction that is about to be executed fails with its faults. -/
theorem Executes.step_eq_error {sp : Block} {regs : Registers} {i : Instr}
    (h : s.Executes sp regs i) (hfault : i.Fault p s.memory sp regs reason) :
    s.step p externals = .error reason := by
  obtain ⟨stack, m, control⟩ := s
  obtain ⟨f, pc, rfl, hi⟩ := h
  exact step_running_error_iff.mpr (.inr ⟨i, hi, hfault⟩)

/-- A state fails in each of the ways that are listed. -/
theorem Failure.step_eq_error (h : s.Failure p externals reason) :
    s.step p externals = .error reason := by
  cases h with
  | undefinedFunction hcontrol htable hexternals =>
    obtain ⟨stack, m, control⟩ := s
    subst hcontrol
    exact call_eq_error_iff.mpr ⟨.inr ⟨htable, hexternals⟩, rfl⟩
  | notFunction hexecutes hcallee hvalue =>
    apply hexecutes.step_eq_error
    exact .callee hcallee (Callee.resolve_eq_error_iff.mpr (.inl ⟨_, rfl, hvalue, rfl⟩))
  | signature hexecutes hcallee hname hf hsig =>
    apply hexecutes.step_eq_error
    exact .callee hcallee
      (Callee.resolve_eq_error_iff.mpr (.inr ⟨_, _, hname, hf, hsig, rfl⟩))
  | operands hexecutes _ hkinds =>
    apply hexecutes.step_eq_error
    exact .condition (Condition.eval?_eq_none_iff.mpr (.inl hkinds))
  | comparison hexecutes hcomparison =>
    apply hexecutes.step_eq_error
    exact .condition (Condition.eval?_eq_none_iff.mpr (.inr ⟨_, hcomparison⟩))
  | @base sp regs i c n r hexecutes haccess hvalue =>
    apply hexecutes.step_eq_error
    refine .address haccess ?_
    cases hr : regs.get r with
    | ptr b ofs => exact absurd hr (hvalue b ofs)
    | _ => simp [Registers.list, hr, Addressing.eval?]
  | addressing hexecutes haccess =>
    apply hexecutes.step_eq_error
    exact .address haccess rfl
  | access hexecutes haccess heval hmemory =>
    apply hexecutes.step_eq_error
    exact .access haccess heval hmemory

/-- A state that is not final, whose points hold instructions and whose blocks have owners, fails in
no other way. -/
theorem Located.failure_of_step (hp : p.Wellformed) (h : s.Located p) (howned : s.Owned)
    (hfinal : s.final? = none) (hstep : s.step p externals = .error reason) :
    s.Failure p externals reason := by
  obtain ⟨stack, m, control⟩ := s
  cases control with
  | running f sp pc regs =>
    have hpoint : p.HasPoint f pc := h.control f sp pc regs rfl
    rcases step_running_error_iff.mp hstep with ⟨hnone, _⟩ | ⟨i, hi, hfault⟩
    · exact absurd hnone hpoint.2
    · obtain ⟨_, harguments⟩ := Instr.defect?_eq_none_iff.mp (hp.defect? hpoint hi)
      obtain ⟨m', hfree⟩ := howned.exists_free
      exact failure_of_fault hi harguments hfree hfault
  | calling callee args =>
    obtain ⟨hundefined, rfl⟩ := call_eq_error_iff.mp hstep
    rcases hundefined with hentry | ⟨htable, hexternals⟩
    · -- Every name of a well-formed table is defined.
      obtain ⟨_, hfunctions⟩ := Program.malformed?_eq_none_iff.mp hp
      obtain ⟨f, hf, _⟩ := hfunctions callee none hentry
      cases hf
    · exact .undefinedFunction rfl htable hexternals
  | returning v =>
    cases stack with
    | nil => cases hfinal
    | cons fr stack => cases hstep

end State

namespace Program

variable {p : Program} {env : Environment} {history : List Event} {s : State}

/-- In a reachable state of a well-formed program the point of the running function and those of its
suspended callers hold instructions.  If the state is not final, its step fails exactly in the ways of
`State.Failure`; so it never lacks an instruction, executes a malformed operation or fails to free a
block. -/
theorem Reaches.failure_iff (hp : p.Wellformed) (h : p.Reaches env history s)
    (hblocks : s.memory.regions.size < 2 ^ 32 - 1) :
    (∀ f sp pc regs, s.control = .running f sp pc regs → ∃ i, f.code.at? pc = some i) ∧
    (∀ fr ∈ s.stack, ∃ i, fr.function.code.at? fr.pc = some i) ∧
    (s.final? = none → ∀ externals reason,
      (s.step p externals = .error reason ↔ s.Failure p externals reason) ∧
      (s.step p externals = .error reason →
        (∀ pc, reason ≠ .noInstruction pc) ∧ (∀ i, reason ≠ .badOperation i) ∧
          ¬ reason.OfFree)) := by
  have hlocated : s.Located p := by
    apply h.invariant (State.Located.initial p) _ hblocks
    intro externals s s' e hlocated hstep _
    exact hlocated.step hp hstep
  have howned : s.Owned := h.owned hblocks
  refine ⟨?_, ?_, ?_⟩
  · intro f sp pc regs hcontrol
    exact Option.ne_none_iff_exists'.mp (hlocated.control f sp pc regs hcontrol).2
  · intro fr hfr
    exact Option.ne_none_iff_exists'.mp (hlocated.stack fr hfr).2
  · intro hfinal externals reason
    refine ⟨⟨hlocated.failure_of_step hp howned hfinal, State.Failure.step_eq_error⟩, fun hstep => ?_⟩
    refine ⟨?_, ?_, howned.not_ofFree hstep⟩
    · rintro pc rfl
      cases hlocated.failure_of_step hp howned hfinal hstep
    · rintro i rfl
      cases hlocated.failure_of_step hp howned hfinal hstep

/-- A program in which `main` calls `f`, and `f` compares a register that was given no value. -/
def stalled : Program where
  main := "main"
  functions := .ofList [
    ("main", some ⟨"main", ⟨[], .int, false⟩, [], 8, 0, ⟨#[
      some (.call ⟨[], .int, false⟩ (.symbol "f") [] 1 1),
      some (.ret (some 1))]⟩⟩),
    ("f", some ⟨"f", ⟨[], .int, false⟩, [], 0, 0, ⟨#[
      some (.cond ⟨.lt, some 3⟩ [1] 1 1),
      some (.ret none)]⟩⟩)]

/-- After three steps the program is stuck at the condition, with a suspended caller. -/
theorem failure_iff_stalled :
    stalled.Wellformed ∧
    ∃ s, stalled.after (External.sums []) 3 = .ok (s, []) ∧ s.depth = 1 ∧
      (∀ fr ∈ s.stack, ∃ i, fr.function.code.at? fr.pc = some i) ∧
      s.step stalled (External.sums []) =
        .error (.undefinedCondition (.cond ⟨.lt, some 3⟩ [1] 1 1)) ∧
      s.Failure stalled (External.sums []) (.undefinedCondition (.cond ⟨.lt, some 3⟩ [1] 1 1)) := by
  have hwellformed : stalled.Wellformed := by decide +kernel
  have hthree : stalled.after (External.sums []) 3 = .ok _ := rfl
  obtain ⟨_, hsuspended, hfailure⟩ :=
    Reaches.failure_iff hwellformed (.of_after hthree) (by decide)
  obtain ⟨hiff, _⟩ := hfailure rfl (External.sums [])
    (.undefinedCondition (.cond ⟨.lt, some 3⟩ [1] 1 1))
  exact ⟨hwellformed, _, hthree, rfl, hsuspended, rfl, hiff.mp rfl⟩

end Program

end RegisterTransfer
