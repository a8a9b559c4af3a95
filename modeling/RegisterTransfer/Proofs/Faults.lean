import RegisterTransfer.Proofs.Conversion
import RegisterTransfer.Proofs.MemoryExtension
set_option autoImplicit false

/-!
# Why a step fails

`Instr.Fault` lists the ways in which an instruction can fail, and `step_running_error_iff` says
that there are no others: an operation or a condition without a result, an address that is none, an
access that the memory refuses, a callee that cannot be called, and a block that cannot be freed.
-/

namespace RegisterTransfer

/-! ## Failing computations -/

/-- A sequence of two computations fails where the first one does, or the second one after it. -/
theorem bind_eq_error_iff {ε α β : Type} {x : Except ε α} {f : α → Except ε β} {e : ε} :
    (x >>= f) = .error e ↔ x = .error e ∨ ∃ a, x = .ok a ∧ f a = .error e := by
  cases x <;> simp [bind, Except.bind]

theorem orStuck_eq_error_iff {α : Type} {reason reason' : StuckReason} {x : Option α} :
    orStuck reason x = .error reason' ↔ x = none ∧ reason = reason' := by
  cases x <;> simp [orStuck]

theorem ofMemory_eq_error_iff {α : Type} {x : Except MemoryError α} {reason : StuckReason} :
    ofMemory x = .error reason ↔ ∃ e, x = .error e ∧ .memory e = reason := by
  cases x <;> simp [ofMemory]

/-! ## Failing memory operations -/

/-- Whether a state is stuck because a block could not be freed. -/
def StuckReason.OfFree : StuckReason → Prop
  | .memory (.freeUnallocated _) | .memory (.freeFreed _) => True
  | _ => False

namespace Memory

variable {m : Memory} {c : Chunk} {b : Block} {ofs : Int64} {v : Val} {e : MemoryError}

theorem load_eq_error_iff : m.load c b ofs = .error e ↔ m.access c b ofs = .error e := by
  unfold load
  cases m.access c b ofs <;> simp [Except.map]

theorem store_eq_error_iff : m.store c b ofs v = .error e ↔ m.access c b ofs = .error e := by
  unfold store
  cases m.access c b ofs <;> simp [Except.map]

/-- An access that fails does not fail as freeing a block does. -/
theorem not_ofFree_of_access (h : m.access c b ofs = .error e) :
    ¬ (StuckReason.memory e).OfFree := by
  unfold access at h
  split at h
  · split at h
    · cases h
      exact id
    · split at h
      · cases h
        exact id
      · cases h
  · cases h
    exact id

/-- A live block can be freed. -/
theorem exists_free_of_live (h : m.live b) : ∃ m', m.free b = .ok m' := by
  obtain ⟨lo, hi, cells, hr⟩ := live_iff.mp h
  exact ⟨_, free_eq_ok_iff.mpr ⟨lo, hi, cells, hr, rfl⟩⟩

end Memory

/-! ## Failing calls -/

/-- A callee cannot be called if it is a register that holds no function, or names a function of the
program with another signature. -/
theorem Callee.resolve_eq_error_iff {p : Program} {regs : Registers} {sig : Signature}
    {callee : Callee} {reason : StuckReason} :
    callee.resolve p regs sig = .error reason ↔
      (∃ r, callee = .register r ∧ (∀ name, regs.get r ≠ .func name) ∧
        reason = .notFunction (regs.get r)) ∨
      ∃ name f, callee.name? regs = some name ∧ p.function? name = some f ∧ f.sig ≠ sig ∧
        reason = .signature name sig f.sig := by
  have hcallable : ∀ name, p.callable sig name = .error reason ↔
      ∃ f, p.function? name = some f ∧ f.sig ≠ sig ∧ reason = .signature name sig f.sig := by
    intro name
    unfold Program.callable
    cases p.function? name with
    | none => simp
    | some f =>
      by_cases hsig : f.sig = sig
      · simp [hsig]
      · simp only [hsig, if_false, Except.error.injEq, Option.some.injEq]
        constructor
        · rintro rfl
          exact ⟨f, rfl, hsig, rfl⟩
        · rintro ⟨_, rfl, _, rfl⟩
          rfl
  cases callee with
  | symbol name => simp [resolve, name?, hcallable]
  | register r =>
    cases hr : regs.get r with
    | func name => simp [resolve, name?, hr, hcallable]
    | _ => simp [resolve, name?, hr, eq_comm]

theorem Callee.not_ofFree_of_resolve {p : Program} {regs : Registers} {sig : Signature}
    {callee : Callee} {reason : StuckReason} (h : callee.resolve p regs sig = .error reason) :
    ¬ reason.OfFree := by
  rcases resolve_eq_error_iff.mp h with ⟨r, _, _, rfl⟩ | ⟨name, f, _, _, _, rfl⟩
  · exact id
  · exact id

/-- A call fails where the table has the name without a definition, or neither the table nor the
external functions have the name. -/
theorem call_eq_error_iff {p : Program} {externals : Externals} {stack : List Frame} {m : Memory}
    {callee : String} {args : List Val} {reason : StuckReason} :
    State.call p externals stack m callee args = .error reason ↔
      (p.functions.get? callee = some none ∨
        p.functions.get? callee = none ∧ externals callee = none) ∧
      reason = .undefinedFunction callee := by
  unfold State.call
  cases p.functions.get? callee with
  | some entry => cases entry <;> simp [eq_comm]
  | none => cases externals callee <;> simp [eq_comm]

/-! ## Failing instructions -/

namespace Instr

/-- The signature and the callee of a call or a tail call. -/
def callee? : Instr → Option (Signature × Callee)
  | .call sig callee _ _ _ | .tailcall sig callee _ => some (sig, callee)
  | _ => none

/-- The chunk, the addressing mode and the arguments of a load or a store. -/
def access? : Instr → Option (Chunk × Addressing × List Reg)
  | .load c a args _ _ | .store c a args _ _ => some (c, a, args)
  | _ => none

/-- Whether an instruction frees the block of its function. -/
def leaves : Instr → Bool
  | .tailcall _ _ _ | .ret _ => true
  | _ => false

/-- How an instruction fails, in a function of block `sp`. -/
inductive Fault (p : Program) (m : Memory) (sp : Block) (regs : Registers) :
    Instr → StuckReason → Prop
  | operation {o : Operation} {args : List Reg} {dest : Reg} {succ : Point}
      (heval : o.eval? (regs.list args) = none) :
      Fault p m sp regs (.op o args dest succ) (.badOperation (.op o args dest succ))
  | address {i : Instr} {c : Chunk} {a : Addressing} {args : List Reg}
      (haccess : i.access? = some (c, a, args)) (heval : a.eval? sp (regs.list args) = none) :
      Fault p m sp regs i (.badAddress i)
  | access {i : Instr} {c : Chunk} {a : Addressing} {args : List Reg} {b : Block} {ofs : Int64}
      {e : MemoryError} (haccess : i.access? = some (c, a, args))
      (heval : a.eval? sp (regs.list args) = some (b, ofs)) (hmemory : m.access c b ofs = .error e) :
      Fault p m sp regs i (.memory e)
  | callee {i : Instr} {sig : Signature} {callee : Callee} {reason : StuckReason}
      (hcallee : i.callee? = some (sig, callee)) (hresolve : callee.resolve p regs sig = .error reason) :
      Fault p m sp regs i reason
  | free {i : Instr} {e : MemoryError} (hleaves : i.leaves)
      (hresolve : ∀ sig callee, i.callee? = some (sig, callee) →
        ∃ name, callee.resolve p regs sig = .ok name)
      (hfree : m.free sp = .error e) : Fault p m sp regs i (.memory e)
  | condition {c : Condition} {args : List Reg} {ifTrue ifFalse : Point}
      (heval : c.eval? (regs.list args) = none) :
      Fault p m sp regs (.cond c args ifTrue ifFalse)
        (.undefinedCondition (.cond c args ifTrue ifFalse))

variable {p : Program} {stack : List Frame} {m : Memory} {f : Function} {sp : Block}
variable {regs : Registers} {i : Instr} {reason : StuckReason}

/-- An instruction that fails has one of the faults. -/
theorem fault_of_execute (h : i.execute p stack m f sp regs = .error reason) :
    i.Fault p m sp regs reason := by
  cases i with
  | nop succ => cases h
  | op o args dest succ =>
    simp only [execute, bind_eq_error_iff, orStuck_eq_error_iff, reduceCtorEq, and_false,
      exists_false, or_false] at h
    obtain ⟨heval, rfl⟩ := h
    exact .operation heval
  | load c a args dest succ =>
    simp only [execute, bind_eq_error_iff, orStuck_eq_error_iff, orStuck_eq_ok_iff,
      ofMemory_eq_error_iff, Memory.load_eq_error_iff, reduceCtorEq, and_false, exists_false,
      or_false, Prod.exists] at h
    rcases h with ⟨heval, rfl⟩ | ⟨b, ofs, heval, e, hmemory, rfl⟩
    · exact .address rfl heval
    · exact .access rfl heval hmemory
  | store c a args src succ =>
    simp only [execute, bind_eq_error_iff, orStuck_eq_error_iff, orStuck_eq_ok_iff,
      ofMemory_eq_error_iff, Memory.store_eq_error_iff, reduceCtorEq, and_false, exists_false,
      or_false, Prod.exists] at h
    rcases h with ⟨heval, rfl⟩ | ⟨b, ofs, heval, e, hmemory, rfl⟩
    · exact .address rfl heval
    · exact .access rfl heval hmemory
  | call sig callee args dest succ =>
    simp only [execute, bind_eq_error_iff, reduceCtorEq, and_false, exists_false, or_false] at h
    exact .callee rfl h
  | tailcall sig callee args =>
    simp only [execute, bind_eq_error_iff, ofMemory_eq_error_iff, reduceCtorEq, and_false,
      exists_false, or_false] at h
    rcases h with hresolve | ⟨name, hresolve, e, hfree, rfl⟩
    · exact .callee rfl hresolve
    · refine .free rfl (fun sig' callee' hcallee => ?_) hfree
      cases hcallee
      exact ⟨name, hresolve⟩
  | cond c args ifTrue ifFalse =>
    simp only [execute, bind_eq_error_iff, orStuck_eq_error_iff, reduceCtorEq, and_false,
      exists_false, or_false] at h
    obtain ⟨heval, rfl⟩ := h
    exact .condition heval
  | ret value =>
    simp only [execute, bind_eq_error_iff, ofMemory_eq_error_iff, reduceCtorEq, and_false,
      exists_false, or_false] at h
    obtain ⟨e, hfree, rfl⟩ := h
    exact .free rfl (fun sig callee hcallee => by cases hcallee) hfree

/-- An instruction with one of the faults fails. -/
theorem Fault.execute (h : i.Fault p m sp regs reason) :
    i.execute p stack m f sp regs = .error reason := by
  cases h with
  | operation heval => simp [Instr.execute, heval, orStuck, bind, Except.bind]
  | address haccess heval =>
    cases i with
    | load | store =>
      cases haccess
      simp [Instr.execute, heval, orStuck, bind, Except.bind]
    | _ => cases haccess
  | access haccess heval hmemory =>
    cases i with
    | load =>
      cases haccess
      simp [Instr.execute, heval, orStuck, bind, Except.bind, Memory.load_eq_error_iff.mpr hmemory,
        ofMemory]
    | store =>
      cases haccess
      simp [Instr.execute, heval, orStuck, bind, Except.bind, Memory.store_eq_error_iff.mpr hmemory,
        ofMemory]
    | _ => cases haccess
  | callee hcallee hresolve =>
    cases i with
    | call | tailcall =>
      cases hcallee
      simp [Instr.execute, hresolve, bind, Except.bind]
    | _ => cases hcallee
  | free hleaves hresolve hfree =>
    cases i with
    | tailcall sig callee args =>
      obtain ⟨name, hname⟩ := hresolve sig callee rfl
      simp [Instr.execute, hname, hfree, ofMemory, bind, Except.bind]
    | ret value => simp [Instr.execute, hfree, ofMemory, bind, Except.bind]
    | _ => cases hleaves
  | condition heval => simp [Instr.execute, heval, orStuck, bind, Except.bind]

/-- Only freeing the function's own block fails as freeing a block does. -/
theorem Fault.free_of_ofFree (h : i.Fault p m sp regs reason) (hreason : reason.OfFree) :
    ∃ e, m.free sp = .error e := by
  cases h with
  | operation => exact hreason.elim
  | address => exact hreason.elim
  | access _ _ hmemory => exact absurd hreason (Memory.not_ofFree_of_access hmemory)
  | callee _ hresolve => exact absurd hreason (Callee.not_ofFree_of_resolve hresolve)
  | free _ _ hfree => exact ⟨_, hfree⟩
  | condition => exact hreason.elim

end Instr

/-! ## Failing steps -/

/-- A running function fails where its point holds no instruction, or holds one with a fault. -/
theorem step_running_error_iff {p : Program} {externals : Externals} {stack : List Frame}
    {m : Memory} {f : Function} {sp : Block} {pc : Point} {regs : Registers}
    {reason : StuckReason} :
    State.step p externals ⟨stack, m, .running f sp pc regs⟩ = .error reason ↔
      (f.code.at? pc = none ∧ .noInstruction pc = reason) ∨
      ∃ i, f.code.at? pc = some i ∧ i.Fault p m sp regs reason := by
  simp only [State.step, bind_eq_error_iff, orStuck_eq_error_iff, orStuck_eq_ok_iff, reduceCtorEq,
    and_false, exists_false, or_false]
  constructor
  · rintro (hnone | ⟨i, hi, hexecute⟩)
    · exact .inl hnone
    · exact .inr ⟨i, hi, Instr.fault_of_execute hexecute⟩
  · rintro (hnone | ⟨i, hi, hfault⟩)
    · exact .inl hnone
    · exact .inr ⟨i, hi, hfault.execute⟩

end RegisterTransfer
