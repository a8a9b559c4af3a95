import RegisterTransfer.Proofs.EpiloguePaths
import RegisterTransfer.Proofs.Faults
set_option autoImplicit false

/-!
# Running an epilogue

A machine that comes to an epilogue takes one step for each of its points and returns what the register
held at first.  A move of the epilogue may write over that register; then its destination holds the
value, and the rest of the epilogue is one of the destination.
-/

namespace RegisterTransfer

@[simp] theorem Registers.read_get (rs : Registers) (r : Reg) : (rs.get r).read = rs.get r := by
  unfold Registers.get
  split
  · rename_i v _
    cases v <;> rfl
  · rfl

namespace State

variable {p : Program} {externals : Externals} {stack : List Frame} {m m' : Memory} {f : Function}
variable {sp : Block} {pc : Point} {r : Reg} {points : List Point} {bound : Int}

/-- A step of an epilogue is its last one, which frees the block and returns the value, or leads to the
rest of the epilogue, whose register holds the value. -/
theorem step_epilogue (h : f.code.Epilogue pc r points) (hfree : m.free sp = .ok m')
    (regs : Registers) :
    (∃ value, points = [pc] ∧ f.code.at? pc = some (.ret value) ∧
      step p externals ⟨stack, m, .running f sp pc regs⟩ =
        .ok (⟨stack, m', .returning (if value = none then .undefined else regs.get r)⟩, none)) ∨
    ∃ rest succ r' regs', points = pc :: rest ∧ f.code.Epilogue succ r' rest ∧
      regs'.get r' = regs.get r ∧
      step p externals ⟨stack, m, .running f sp pc regs⟩ =
        .ok (⟨stack, m, .running f sp succ regs'⟩, none) := by
  cases h with
  | @ret _ _ value hat hvalue =>
    refine .inl ⟨value, rfl, hat, step_running_iff.mpr ⟨rfl, _, hat, ?_⟩⟩
    rw [Instr.execute_ret_iff]
    refine ⟨m', hfree, ?_⟩
    rcases hvalue with rfl | rfl <;> rfl
  | @nop _ succ _ rest hat hrest =>
    exact .inr ⟨rest, succ, r, regs, rfl, hrest, rfl, step_running_iff.mpr ⟨rfl, _, hat, rfl⟩⟩
  | @move _ succ _ dest rest hat hrest =>
    refine .inr ⟨rest, succ, dest, regs.set dest (regs.get r), rfl, hrest, by simp, ?_⟩
    exact step_running_iff.mpr ⟨rfl, _, hat, rfl⟩

/-- The steps of an epilogue come to its points in order, with the stack and the memory as they were,
and then return the value. -/
theorem after_epilogue (h : f.code.Epilogue pc r points) (hfree : m.free sp = .ok m')
    (regs : Registers) :
    (∀ i q, points[i]? = some q → ∃ regs',
      after p externals ⟨stack, m, .running f sp pc regs⟩ i =
        .ok (⟨stack, m, .running f sp q regs'⟩, [])) ∧
    ∃ last value, points.getLast? = some last ∧ f.code.at? last = some (.ret value) ∧
      after p externals ⟨stack, m, .running f sp pc regs⟩ points.length =
        .ok (⟨stack, m', .returning (if value = none then .undefined else regs.get r)⟩, []) := by
  induction points generalizing pc r regs with
  | nil => cases h
  | cons x points ih =>
    rcases step_epilogue h hfree regs with ⟨value, hpoints, hat, hstep⟩ |
      ⟨rest, succ, r', regs', hpoints, hrest, hvalue, hstep⟩
    · cases hpoints
      refine ⟨fun i q hi => ?_, _, value, rfl, hat, after_succ_of_step hstep rfl⟩
      cases i with
      | zero =>
        cases hi
        exact ⟨regs, rfl⟩
      | succ i => cases hi
    · cases hpoints
      obtain ⟨hvisits, last, value, hlast, hat, hreturns⟩ := ih hrest regs'
      rw [hvalue] at hreturns
      refine ⟨fun i q hi => ?_, last, value, ?_, hat, after_succ_of_step hstep hreturns⟩
      · cases i with
        | zero =>
          cases hi
          exact ⟨regs, rfl⟩
        | succ i =>
          obtain ⟨regs'', hafter⟩ := hvisits i q hi
          exact ⟨regs'', after_succ_of_step hstep hafter⟩
      · simp [List.getLast?_cons, hlast]

/-- A function at a point that does nothing but return a register takes one step for each point of the
epilogue, makes no external call, and changes neither the stack nor the memory, until it frees its own
block and no other and returns what the register held, or `undefined` at a return without a register. -/
theorem after_isReturn (p : Program) (externals : Externals) (stack : List Frame) (regs : Registers)
    (hreturn : f.code.isReturn pc r bound) (hlive : m.live sp) :
    ∃ points m' last value, f.code.epilogue? pc r bound = some points ∧
      (∀ i q, points[i]? = some q → ∃ regs',
        after p externals ⟨stack, m, .running f sp pc regs⟩ i =
          .ok (⟨stack, m, .running f sp q regs'⟩, [])) ∧
      (m.free sp = .ok m' ∧ ¬ m'.live sp ∧ ∀ b, b ≠ sp → m'.region? b = m.region? b) ∧
      points.getLast? = some last ∧ f.code.at? last = some (.ret value) ∧
      after p externals ⟨stack, m, .running f sp pc regs⟩ points.length =
        .ok (⟨stack, m', .returning (if value = none then .undefined else regs.get r)⟩, []) := by
  obtain ⟨points, hpoints⟩ := Option.isSome_iff_exists.mp hreturn
  obtain ⟨hepilogue, _⟩ := Code.epilogue?_eq_some_iff.mp hpoints
  obtain ⟨m', hfree⟩ := Memory.exists_free_of_live hlive
  obtain ⟨hvisits, last, value, hlast, hat, hreturns⟩ := after_epilogue hepilogue hfree regs
  exact ⟨points, m', last, value, hpoints, hvisits,
    ⟨hfree, Memory.not_live_of_free hfree, fun b hb => Memory.region?_free_ne hfree hb⟩, hlast, hat,
    hreturns⟩

/-- A function with the code `Code.winding`. -/
def winder : Function := ⟨"winder", ⟨[], .int, false⟩, [], 0, 0, .winding⟩

/-- The function with a number in each of the registers that it moves, and two live blocks, the second
its own. -/
def windingUp : State :=
  ⟨[], ⟨#[⟨0, 8, some ∅⟩, ⟨0, 0, some ∅⟩]⟩, .running winder 2 0 (.ofList [(1, .int 7), (2, .int 9)])⟩

/-- Its four steps write over both registers, return the number that was in the first, and free the
second block alone. -/
theorem after_isReturn_windingUp :
    winder.code.isReturn 0 1 5 ∧
    ∃ m', windingUp.memory.free 2 = .ok m' ∧ m'.live 1 ∧ ¬ m'.live 2 ∧
      (∃ regs', windingUp.after .relay (External.sums []) 3 =
        .ok (⟨[], windingUp.memory, .running winder 2 3 regs'⟩, [])) ∧
      windingUp.after .relay (External.sums []) 4 = .ok (⟨[], m', .returning (.int 7)⟩, []) := by
  have hreturn : winder.code.isReturn 0 1 5 := by decide
  have hlive : windingUp.memory.live 2 := by decide
  obtain ⟨points, m', last, value, hpoints, hvisits, ⟨hfree, hdead, hothers⟩, hlast, hat, hreturns⟩ :=
    after_isReturn .relay (External.sums []) [] (.ofList [(1, .int 7), (2, .int 9)]) hreturn hlive
  obtain rfl : [0, 1, 2, 3] = points := Option.some.inj hpoints
  obtain rfl : 3 = last := Option.some.inj hlast
  obtain rfl : some 1 = value := by cases hat; rfl
  refine ⟨hreturn, m', hfree, ?_, hdead, hvisits 3 3 rfl, hreturns⟩
  rw [Memory.live, hothers 1 (by decide)]
  rfl

end State

end RegisterTransfer
