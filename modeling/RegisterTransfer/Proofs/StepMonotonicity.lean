import RegisterTransfer.Proofs.Conversion
import RegisterTransfer.Proofs.Ownership
set_option autoImplicit false

/-!
# Steps in the order of definedness

A state is below another of the same program if both are about to do the same, the second with
registers, arguments, returned values and cells at least as defined; the second may have freed
blocks without room that the first still has.  What the lesser state can do the greater one can do
too, and the order is kept (`State.step_lessDefined`).  The part that concerns a single instruction
is stated for two functions, so that it serves a function and its conversion as well
(`Instr.execute_lessDefined`).
-/

namespace RegisterTransfer

/-! ## Memories that extend each other -/

namespace Memory

variable {m m' : Memory}

/-- A memory is below those that extend it, as long as the numbers of blocks have not run out: then
equal next blocks are equal numbers of blocks. -/
theorem Extends.lessDefined (h : m.Extends m') (hsize : m.regions.size < 2 ^ 32 - 1)
    (hsize' : m'.regions.size < 2 ^ 32 - 1) : m.LessDefined m' := by
  have heq : m.next.toNat = m'.next.toNat := congrArg UInt32.toNat h.next_eq
  rw [toNat_next (by omega), toNat_next (by omega)] at heq
  exact lessDefined_iff.mpr ⟨h, by omega⟩

end Memory

/-- An address is in the function's own block, or computed from a pointer. -/
theorem Addressing.eval?_cases {a : Addressing} {sp b : Block} {vs : List Val} {ofs : Int64}
    (h : a.eval? sp vs = some (b, ofs)) : b = sp ∨ ∃ n, a = .indexed n := by
  unfold Addressing.eval? at h
  split at h
  · cases h
    exact .inl rfl
  · exact .inr ⟨_, rfl⟩
  · cases h

/-- The block of an access that succeeds in the lesser memory is live in the greater one: it is the
running function's own, or has room. -/
theorem Memory.LessDefined.live_of_eval? {m m' : Memory} (h : m.LessDefined m') {sp : Block}
    (hlive : m'.live sp) {c : Chunk} {a : Addressing} {vs : List Val} {b : Block}
    {ofs lo hi : Int64} {cells : FinMap Int64 Cell} (heval : a.eval? sp vs = some (b, ofs))
    (hrange : ∀ n, a = .indexed n → ofs.toInt + c.size.toInt ≤ 2 ^ 63 - 1)
    (hr : m.region? b = some ⟨lo, hi, some cells⟩) (hfits : Memory.Fits lo hi c ofs) :
    m'.live b := by
  rcases Addressing.eval?_cases heval with rfl | ⟨n, ha⟩
  · exact hlive
  · exact h.extends.live hr hfits (hrange n ha)

/-! ## Instructions -/

namespace Instr

/-- The states after an instruction that two functions execute with the same block: both stay in
their functions, call with a frame of their own, or leave by a tail call or a return. -/
inductive Counterparts (stack stack' : List Frame) (f g : Function) (sp : Block) :
    State → State → Prop
  | stays {m m' : Memory} {pc : Point} {regs regs' : Registers} (hmemory : m.LessDefined m')
      (hregs : regs.lessDefined regs') :
      Counterparts stack stack' f g sp ⟨stack, m, .running f sp pc regs⟩
        ⟨stack', m', .running g sp pc regs'⟩
  | calls {m m' : Memory} {dest : Reg} {succ : Point} {regs regs' : Registers} {name : String}
      {args args' : List Val} (hmemory : m.LessDefined m') (hregs : regs.lessDefined regs')
      (hargs : Val.listLessDefined args args') :
      Counterparts stack stack' f g sp
        ⟨⟨dest, f, sp, succ, regs⟩ :: stack, m, .calling name args⟩
        ⟨⟨dest, g, sp, succ, regs'⟩ :: stack', m', .calling name args'⟩
  | leaves {m m' : Memory} {name : String} {args args' : List Val} (hmemory : m.LessDefined m')
      (hargs : Val.listLessDefined args args') :
      Counterparts stack stack' f g sp ⟨stack, m, .calling name args⟩
        ⟨stack', m', .calling name args'⟩
  | returns {m m' : Memory} {v v' : Val} (hmemory : m.LessDefined m') (hv : v.lessDefined v') :
      Counterparts stack stack' f g sp ⟨stack, m, .returning v⟩ ⟨stack', m', .returning v'⟩

variable {p q : Program} {stack : List Frame} {m m' : Memory} {f g : Function} {sp : Block}
variable {pc : Point} {regs regs' : Registers} {i : Instr} {s : State}

/-- An instruction that a function can execute can be executed by another one in a greater memory
with registers at least as defined, if it finds the same callees and its block is live. -/
theorem execute_lessDefined (stack' : List Frame) (hmemory : m.LessDefined m')
    (hregs : regs.lessDefined regs') (hlive : m'.live sp)
    (hresolve : ∀ (callee : Callee) sig name, callee.resolve p regs sig = .ok name →
      callee.resolve q regs' sig = .ok name)
    (hi : f.code.at? pc = some i) (hrange : State.AccessInRange ⟨stack, m, .running f sp pc regs⟩)
    (h : i.execute p stack m f sp regs = .ok s) :
    ∃ t, i.execute q stack' m' g sp regs' = .ok t ∧ Counterparts stack stack' f g sp s t := by
  have hlist := Registers.lessDefined_list hregs
  cases i with
  | nop succ =>
    cases h
    exact ⟨_, rfl, .stays hmemory hregs⟩
  | op o args dest succ =>
    obtain ⟨v, heval, rfl⟩ := execute_op_iff.mp h
    obtain ⟨v', heval', hv⟩ := Operation.eval?_lessDefined (hlist args) heval
    exact ⟨_, execute_op_iff.mpr ⟨v', heval', rfl⟩,
      .stays hmemory (Registers.lessDefined_set dest hregs hv)⟩
  | load c a args dest succ =>
    obtain ⟨b, ofs, heval, v, hload, rfl⟩ := execute_load_iff.mp h
    have heval' := Addressing.eval?_lessDefined (hlist args) heval
    obtain ⟨lo, hi', cells, hr, hfits, _⟩ := Memory.load_eq_ok_iff.mp hload
    have hlive' : m'.live b := hmemory.live_of_eval? hlive heval (fun n ha => hrange c ofs (by
      subst ha
      simp [State.indexedAccess?, hi, heval])) hr hfits
    obtain ⟨v', hload', hv⟩ := hmemory.extends.load hload hlive'
    exact ⟨_, execute_load_iff.mpr ⟨b, ofs, heval', v', hload', rfl⟩,
      .stays hmemory (Registers.lessDefined_set dest hregs hv)⟩
  | store c a args src succ =>
    obtain ⟨b, ofs, heval, m'', hstore, rfl⟩ := execute_store_iff.mp h
    have heval' := Addressing.eval?_lessDefined (hlist args) heval
    obtain ⟨lo, hi', cells, hr, hfits, _⟩ := Memory.store_eq_ok_iff.mp hstore
    have hlive' : m'.live b := hmemory.live_of_eval? hlive heval (fun n ha => hrange c ofs (by
      subst ha
      simp [State.indexedAccess?, hi, heval])) hr hfits
    obtain ⟨n', hstore', hmemory'⟩ :=
      hmemory.store hstore (Registers.lessDefined_iff.mp hregs src) hlive'
    exact ⟨_, execute_store_iff.mpr ⟨b, ofs, heval', n', hstore', rfl⟩, .stays hmemory' hregs⟩
  | call sig callee args dest succ =>
    obtain ⟨name, hname, rfl⟩ := execute_call_iff.mp h
    exact ⟨_, execute_call_iff.mpr ⟨name, hresolve callee sig name hname, rfl⟩,
      .calls hmemory hregs (hlist args)⟩
  | tailcall sig callee args =>
    obtain ⟨name, hname, m'', hfree, rfl⟩ := execute_tailcall_iff.mp h
    obtain ⟨n', hfree', hmemory'⟩ := hmemory.free hfree hlive
    exact ⟨_, execute_tailcall_iff.mpr ⟨name, hresolve callee sig name hname, n', hfree', rfl⟩,
      .leaves hmemory' (hlist args)⟩
  | cond c args ifTrue ifFalse =>
    obtain ⟨b, heval, rfl⟩ := execute_cond_iff.mp h
    have heval' := Condition.eval?_lessDefined (hlist args) heval
    exact ⟨_, execute_cond_iff.mpr ⟨b, heval', rfl⟩, .stays hmemory hregs⟩
  | ret value =>
    obtain ⟨m'', hfree, rfl⟩ := execute_ret_iff.mp h
    obtain ⟨n', hfree', hmemory'⟩ := hmemory.free hfree hlive
    refine ⟨_, execute_ret_iff.mpr ⟨n', hfree', rfl⟩, .returns hmemory' ?_⟩
    cases value with
    | none => exact Val.undefined_lessDefined _
    | some r => exact Registers.lessDefined_iff.mp hregs r

end Instr

/-! ## States -/

/-- Frames that resume at the same point of the same function, with the same block, the second with
registers at least as defined. -/
structure Frame.LessDefined (s t : Frame) : Prop where
  result : s.result = t.result
  function : s.function = t.function
  pc : s.pc = t.pc
  sp : s.sp = t.sp
  regs : s.regs.lessDefined t.regs

/-- What two states are about to do, if it is the same, the second with values at least as
defined. -/
inductive Control.LessDefined : Control → Control → Prop
  | running {f : Function} {sp : Block} {pc : Point} {regs regs' : Registers}
      (hregs : regs.lessDefined regs') :
      LessDefined (.running f sp pc regs) (.running f sp pc regs')
  | calling {callee : String} {args args' : List Val} (hargs : Val.listLessDefined args args') :
      LessDefined (.calling callee args) (.calling callee args')
  | returning {v v' : Val} (hvalue : v.lessDefined v') :
      LessDefined (.returning v) (.returning v')

namespace State

variable {p : Program} {externals : Externals} {s s' t t' : State} {e : Option Event}

/-- Two states that are about to do the same with memories in order, whose stacks agree frame by
frame. -/
structure Parallel (s t : State) : Prop where
  memory : s.memory.LessDefined t.memory
  stack : List.Forall₂ Frame.LessDefined s.stack t.stack
  control : s.control.LessDefined t.control

/-- A running function executes its instruction in both states. -/
theorem Parallel.execute {stack stack' : List Frame} {m m' : Memory} {f : Function} {sp : Block}
    {pc : Point} {regs regs' : Registers} {i : Instr} (hmemory : m.LessDefined m')
    (hstack : List.Forall₂ Frame.LessDefined stack stack') (hregs : regs.lessDefined regs')
    (hlive : m'.live sp) (hi : f.code.at? pc = some i)
    (hrange : AccessInRange ⟨stack, m, .running f sp pc regs⟩)
    (hexecute : i.execute p stack m f sp regs = .ok s') :
    ∃ t', i.execute p stack' m' f sp regs' = .ok t' ∧ s'.Parallel t' := by
  obtain ⟨t', hexecute', hcounterparts⟩ := Instr.execute_lessDefined (g := f) stack' hmemory
    hregs hlive (fun callee sig name => Callee.resolve_lessDefined hregs) hi hrange hexecute
  refine ⟨t', hexecute', ?_⟩
  cases hcounterparts with
  | stays hmemory hregs => exact ⟨hmemory, hstack, .running hregs⟩
  | calls hmemory hregs hargs =>
    exact ⟨hmemory, .cons ⟨rfl, rfl, rfl, rfl, hregs⟩ hstack, .calling hargs⟩
  | leaves hmemory hargs => exact ⟨hmemory, hstack, .calling hargs⟩
  | returns hmemory hv => exact ⟨hmemory, hstack, .returning hv⟩

/-- Both states enter the function that they call, with the same new block, or call the same
external function. -/
theorem Parallel.call {stack stack' : List Frame} {m m' : Memory} {callee : String}
    {args args' : List Val} (hmonotone : externals.Monotone) (hmemory : m.LessDefined m')
    (hstack : List.Forall₂ Frame.LessDefined stack stack') (hargs : Val.listLessDefined args args')
    (hcall : State.call p externals stack m callee args = .ok (s', e)) :
    ∃ t' e', State.call p externals stack' m' callee args' = .ok (t', e') ∧
      Event.mismatch? e e' = none ∧ s'.Parallel t' := by
  rcases call_eq_ok_iff.mp hcall with ⟨f, hget, rfl, rfl⟩ | ⟨hget, external, hexternal, rfl, rfl⟩
  · obtain ⟨hmemory', hblock⟩ := hmemory.alloc 0 f.stackSize
    refine ⟨_, none, call_eq_ok_iff.mpr (.inl ⟨f, hget, rfl, rfl⟩), rfl, hmemory', hstack, ?_⟩
    simp only [State.enter]
    rw [hblock]
    exact .running (Registers.lessDefined_ofParams f.params hargs)
  · have hresult := hmonotone callee external hexternal args args' hargs
    refine ⟨_, _, call_eq_ok_iff.mpr (.inr ⟨hget, external, hexternal, rfl, rfl⟩), ?_,
      hmemory, hstack, .returning hresult⟩
    exact Event.mismatch?_eq_none_iff.mpr (.cons ⟨rfl, hargs, hresult⟩ .nil)

/-- The greater of two parallel states follows a step of the lesser one, if it has the block of its
running function. -/
theorem Parallel.step (hmonotone : externals.Monotone) (h : s.Parallel t)
    (hlive : ∀ f sp pc regs, t.control = .running f sp pc regs → t.memory.live sp)
    (hrange : s.AccessInRange) (hstep : s.step p externals = .ok (s', e)) :
    ∃ t' e', t.step p externals = .ok (t', e') ∧ Event.mismatch? e e' = none ∧ s'.Parallel t' := by
  obtain ⟨hmemory, hstack, hcontrol⟩ := h
  obtain ⟨stack, m, control⟩ := s
  obtain ⟨stack', m', control'⟩ := t
  cases hcontrol with
  | running hregs =>
    obtain ⟨rfl, i, hi, hexecute⟩ := step_running_iff.mp hstep
    obtain ⟨t', hexecute', hparallel⟩ :=
      Parallel.execute hmemory hstack hregs (hlive _ _ _ _ rfl) hi hrange hexecute
    exact ⟨t', none, step_running_iff.mpr ⟨rfl, i, hi, hexecute'⟩, rfl, hparallel⟩
  | calling hargs => exact Parallel.call hmonotone hmemory hstack hargs hstep
  | returning hvalue =>
    cases hstack with
    | nil => cases hstep
    | @cons fr fr' stack stack' hframe hstack =>
      cases hstep
      refine ⟨_, none, rfl, rfl, hmemory, hstack, ?_⟩
      rw [← hframe.function, ← hframe.sp, ← hframe.pc, ← hframe.result]
      exact .running (Registers.lessDefined_set _ hframe.regs hvalue)

/-! ## Sound states -/

/-- A step keeps a stack sound, unless the numbers of blocks run out. -/
theorem stackError?_step (h : s.stackError? = none) (hstep : s.step p externals = .ok (s', e))
    (hblocks : s'.memory.regions.size < 2 ^ 32 - 1) : s'.stackError? = none := by
  rw [stackError?_eq_none_iff] at h ⊢
  cases step_effect hstep with
  | silent hframes hmemory => rwa [hframes, hmemory]
  | store c b ofs v hframes hmemory =>
    rw [hframes]
    exact h.store hmemory
  | enter f hframes hmemory =>
    have hsize : s.memory.regions.size + 2 < 2 ^ 32 := by
      simp only [hmemory, Memory.alloc, Array.size_push] at hblocks
      omega
    rw [hframes, hmemory]
    exact h.alloc hsize f
  | leave f sp hframes hmemory =>
    rw [hframes] at h
    exact h.free hmemory

/-- A running function of a sound state has its block. -/
theorem live_of_stackError? (h : s.stackError? = none) {f : Function} {sp : Block} {pc : Point}
    {regs : Registers} (hcontrol : s.control = .running f sp pc regs) : s.memory.live sp := by
  have hmem : (f, sp) ∈ s.frames := by simp [frames, hcontrol]
  exact ((stackError?_eq_none_iff.mp h).holds f sp hmem).live

/-- A state below another: its memory is extended by the other's, the stacks of both are sound and
agree frame by frame, and both are about to do the same. -/
structure LessDefined (s t : State) : Prop where
  memory : s.memory.Extends t.memory
  source : s.stackError? = none
  target : t.stackError? = none
  stack : List.Forall₂ Frame.LessDefined s.stack t.stack
  control : s.control.LessDefined t.control

/-- What the lesser of two states can do the greater one can do, with a matching event, and what
they come to is in order again.  The external functions must be monotone, an access through a pointer
ends no further than the last offset, and the numbers of blocks do not run out. -/
theorem step_lessDefined (hmonotone : externals.Monotone) (h : s.LessDefined t)
    (hstep : s.step p externals = .ok (s', e)) (hrange : s.AccessInRange)
    (hblocks : s'.memory.regions.size < 2 ^ 32 - 1)
    (hblocks' : t.memory.regions.size < 2 ^ 32 - 1) :
    ∃ t' e', t.step p externals = .ok (t', e') ∧ Event.mismatch? e e' = none ∧
      s'.LessDefined t' := by
  have hsize := (step_effect hstep).size_le.1
  have hparallel : s.Parallel t := ⟨h.memory.lessDefined (by omega) hblocks', h.stack, h.control⟩
  obtain ⟨t', e', hstep', hevents, hmemory, hstack, hcontrol⟩ :=
    hparallel.step hmonotone (fun _ _ _ _ => live_of_stackError? h.target) hrange hstep
  refine ⟨t', e', hstep', hevents, hmemory.extends, stackError?_step h.source hstep hblocks,
    stackError?_step h.target hstep' ?_, hstack, hcontrol⟩
  rw [← hmemory.size_eq]
  exact hblocks

/-- A function that stores its register `1` through the pointer in its register `2`. -/
def spill : Function :=
  ⟨"spill", ⟨[], .void, false⟩, [], 8, 0, ⟨#[
    some (.store .any64 (.indexed 0) [2] 1 1),
    some (.ret none)]⟩⟩

/-- The function, about to store a value at the start of its own block, the second one.  The first
block has no room, and may have been freed. -/
def spilling (first : Option (FinMap Int64 Cell)) (v : Val) : State :=
  ⟨[], ⟨#[⟨0, 0, first⟩, ⟨0, 8, some ∅⟩]⟩, .running spill 2 0 (.ofList [(1, v), (2, .ptr 2 0)])⟩

/-- The lesser state stores an undefined value, the greater one, which has freed the first block, a
number. -/
theorem step_lessDefined_spilling :
    (spilling (some ∅) .undefined).LessDefined (spilling none (.int 5)) ∧
    ∃ s' t' e', (spilling (some ∅) .undefined).step .relay (External.sums []) = .ok (s', none) ∧
      (spilling none (.int 5)).step .relay (External.sums []) = .ok (t', e') ∧
      s'.LessDefined t' ∧ s'.memory.load .any64 2 0 = .ok .undefined := by
  have hle : (spilling (some ∅) .undefined).LessDefined (spilling none (.int 5)) :=
    ⟨by decide, by decide, by decide, .nil, .running (by decide)⟩
  have hrange : (spilling (some ∅) .undefined).AccessInRange := by
    intro c ofs h
    cases h
    decide
  have hstep : (spilling (some ∅) .undefined).step .relay (External.sums []) = .ok (_, none) := rfl
  obtain ⟨t', e', hstep', _, hle'⟩ :=
    step_lessDefined (External.sums_monotone []) hle hstep hrange (by decide) (by decide)
  exact ⟨hle, _, t', e', hstep, hstep', hle', by decide⟩

end State

end RegisterTransfer
