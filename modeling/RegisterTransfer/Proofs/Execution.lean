import Mathlib.Algebra.Order.Ring.Int
import RegisterTransfer.Machine.Run
set_option autoImplicit false

/-!
# Runs of a given length

`State.after` takes exactly as many steps as it is told.  A run that may take at most `n` steps
under external functions that never change is tied to it here: what it returns is the value of a
final state that some number of steps leads to, and it is unfinished where `n` steps lead to a state
that is not final.
-/

namespace RegisterTransfer

/-- A sequence of two computations succeeds where both do. -/
theorem bind_eq_ok_iff {ε α β : Type} {x : Except ε α} {f : α → Except ε β} {b : β} :
    (x >>= f) = .ok b ↔ ∃ a, x = .ok a ∧ f a = .ok b := by
  cases x <;> simp [bind, Except.bind]

theorem orStuck_eq_ok_iff {α : Type} {reason : StuckReason} {x : Option α} {a : α} :
    orStuck reason x = .ok a ↔ x = some a := by
  cases x <;> simp [orStuck]

theorem ofMemory_eq_ok_iff {α : Type} {x : Except MemoryError α} {a : α} :
    ofMemory x = .ok a ↔ x = .ok a := by
  cases x <;> simp [ofMemory]

/-! ## What a step does -/

namespace Instr

variable {p : Program} {stack : List Frame} {m : Memory} {f : Function} {sp : Block}
variable {regs : Registers} {args : List Reg} {dest : Reg} {succ : Point} {s' : State}

theorem execute_op_iff {o : Operation} :
    (op o args dest succ).execute p stack m f sp regs = .ok s' ↔
      ∃ v, o.eval? (regs.list args) = some v ∧
        ⟨stack, m, .running f sp succ (regs.set dest v)⟩ = s' := by
  simp only [execute, bind_eq_ok_iff, orStuck_eq_ok_iff, Except.ok.injEq]

theorem execute_load_iff {c : Chunk} {a : Addressing} :
    (load c a args dest succ).execute p stack m f sp regs = .ok s' ↔
      ∃ b ofs, a.eval? sp (regs.list args) = some (b, ofs) ∧ ∃ v, m.load c b ofs = .ok v ∧
        ⟨stack, m, .running f sp succ (regs.set dest v)⟩ = s' := by
  simp only [execute, bind_eq_ok_iff, orStuck_eq_ok_iff, ofMemory_eq_ok_iff, Prod.exists,
    Except.ok.injEq]

theorem execute_store_iff {c : Chunk} {a : Addressing} {src : Reg} :
    (store c a args src succ).execute p stack m f sp regs = .ok s' ↔
      ∃ b ofs, a.eval? sp (regs.list args) = some (b, ofs) ∧
        ∃ m', m.store c b ofs (regs.get src) = .ok m' ∧
          ⟨stack, m', .running f sp succ regs⟩ = s' := by
  simp only [execute, bind_eq_ok_iff, orStuck_eq_ok_iff, ofMemory_eq_ok_iff, Prod.exists,
    Except.ok.injEq]

theorem execute_call_iff {sig : Signature} {callee : Callee} :
    (call sig callee args dest succ).execute p stack m f sp regs = .ok s' ↔
      ∃ name, callee.resolve p regs sig = .ok name ∧
        ⟨⟨dest, f, sp, succ, regs⟩ :: stack, m, .calling name (regs.list args)⟩ = s' := by
  simp only [execute, bind_eq_ok_iff, Except.ok.injEq]

theorem execute_tailcall_iff {sig : Signature} {callee : Callee} :
    (tailcall sig callee args).execute p stack m f sp regs = .ok s' ↔
      ∃ name, callee.resolve p regs sig = .ok name ∧ ∃ m', m.free sp = .ok m' ∧
        ⟨stack, m', .calling name (regs.list args)⟩ = s' := by
  simp only [execute, bind_eq_ok_iff, ofMemory_eq_ok_iff, Except.ok.injEq]

theorem execute_cond_iff {c : Condition} {ifTrue ifFalse : Point} :
    (cond c args ifTrue ifFalse).execute p stack m f sp regs = .ok s' ↔
      ∃ b, c.eval? (regs.list args) = some b ∧
        ⟨stack, m, .running f sp (if b then ifTrue else ifFalse) regs⟩ = s' := by
  simp only [execute, bind_eq_ok_iff, orStuck_eq_ok_iff, Except.ok.injEq]

theorem execute_ret_iff {value : Option Reg} :
    (ret value).execute p stack m f sp regs = .ok s' ↔
      ∃ m', m.free sp = .ok m' ∧
        ⟨stack, m', .returning ((value.map regs.get).getD .undefined)⟩ = s' := by
  simp only [execute, bind_eq_ok_iff, ofMemory_eq_ok_iff, Except.ok.injEq]

end Instr

/-- A call enters a function of the program, or is answered by an external function. -/
theorem call_eq_ok_iff {p : Program} {externals : Externals} {stack : List Frame} {m : Memory}
    {callee : String} {args : List Val} {s' : State} {e : Option Event} :
    State.call p externals stack m callee args = .ok (s', e) ↔
      (∃ f, p.functions.get? callee = some (some f) ∧ s' = .enter stack m f args ∧ e = none) ∨
      (p.functions.get? callee = none ∧ ∃ external, externals callee = some external ∧
        s' = ⟨stack, m, .returning (external args).read⟩ ∧
        e = some ⟨callee, args, (external args).read⟩) := by
  unfold State.call
  cases p.functions.get? callee with
  | some entry => cases entry <;> simp [eq_comm]
  | none => cases externals callee <;> simp [eq_comm]

/-- A step of a running function executes the instruction at its point, without an event. -/
theorem step_running_iff {p : Program} {externals : Externals} {stack : List Frame} {m : Memory}
    {f : Function} {sp : Block} {pc : Point} {regs : Registers} {s' : State} {e : Option Event} :
    State.step p externals ⟨stack, m, .running f sp pc regs⟩ = .ok (s', e) ↔
      e = none ∧ ∃ i, f.code.at? pc = some i ∧ i.execute p stack m f sp regs = .ok s' := by
  simp only [State.step, bind_eq_ok_iff, orStuck_eq_ok_iff, Except.ok.injEq, Prod.mk.injEq]
  constructor
  · rintro ⟨i, hi, s'', hexecute, rfl, rfl⟩
    exact ⟨rfl, i, hi, hexecute⟩
  · rintro ⟨rfl, i, hi, hexecute⟩
    exact ⟨i, hi, s', hexecute, rfl, rfl⟩

namespace State

variable {p : Program} {externals : Externals} {s s' t : State} {n k : Nat} {v : Val}
variable {e : Option Event} {es : List Event}

/-! ## A given number of steps -/

/-- The state after exactly `n` steps and the external calls of these steps, in order; or the
reason why one of them cannot be taken. -/
def after (p : Program) (externals : Externals) (s : State) :
    Nat → Except StuckReason (State × List Event)
  | 0 => .ok (s, [])
  | n + 1 => do
    let (s', events) ← s.after p externals n
    let (s'', event) ← s'.step p externals
    .ok (s'', events ++ event.toList)

@[simp] theorem after_zero : s.after p externals 0 = .ok (s, []) := rfl

/-- The last step of a run. -/
theorem after_succ_eq_ok_iff :
    s.after p externals (n + 1) = .ok (t, es) ↔
      ∃ s' es' e, s.after p externals n = .ok (s', es') ∧ s'.step p externals = .ok (t, e) ∧
        es = es' ++ e.toList := by
  simp only [after, bind_eq_ok_iff, Prod.exists, Except.ok.injEq, Prod.mk.injEq]
  constructor
  · rintro ⟨s', es', h, t', e, hstep, rfl, rfl⟩
    exact ⟨s', es', e, h, hstep, rfl⟩
  · rintro ⟨s', es', e, h, hstep, rfl⟩
    exact ⟨s', es', h, t, e, hstep, rfl, rfl⟩

/-- The first step of a run. -/
theorem after_succ_of_step (hstep : s.step p externals = .ok (s', e))
    (h : s'.after p externals n = .ok (t, es)) :
    s.after p externals (n + 1) = .ok (t, e.toList ++ es) := by
  induction n generalizing t es with
  | zero =>
    cases h
    exact after_succ_eq_ok_iff.mpr ⟨s, [], e, rfl, hstep, by simp⟩
  | succ n ih =>
    obtain ⟨u, es', e', h', hstep', rfl⟩ := after_succ_eq_ok_iff.mp h
    exact after_succ_eq_ok_iff.mpr ⟨u, e.toList ++ es', e', ih h', hstep', by simp⟩

/-- Fewer steps can be taken where more can. -/
theorem exists_after_of_le (h : s.after p externals n = .ok (t, es)) (hk : k ≤ n) :
    ∃ u es', s.after p externals k = .ok (u, es') := by
  induction hk generalizing t es with
  | refl => exact ⟨t, es, h⟩
  | step _ ih =>
    obtain ⟨u, es', e, h', _, _⟩ := after_succ_eq_ok_iff.mp h
    exact ih h'

/-- A run that comes to a state that is its own successor stays there. -/
theorem after_of_loop (h : s.after p externals k = .ok (t, es))
    (hloop : t.step p externals = .ok (t, none)) (hk : k ≤ n) :
    s.after p externals n = .ok (t, es) := by
  induction hk with
  | refl => exact h
  | step _ ih => exact after_succ_eq_ok_iff.mpr ⟨t, es, none, ih, hloop, by simp⟩

/-! ## Final states -/

theorem final?_eq_some_iff : s.final? = some v ↔ s.stack = [] ∧ s.control = .returning v := by
  unfold final?
  split <;> simp_all

/-- A final state has no successor. -/
theorem final?_eq_none_of_step (hstep : s.step p externals = .ok (s', e)) : s.final? = none := by
  cases hfinal : s.final? with
  | none => rfl
  | some v =>
    obtain ⟨hstack, hcontrol⟩ := final?_eq_some_iff.mp hfinal
    simp [step, hstack, hcontrol] at hstep

/-! ## Runs of at most a number of steps -/

theorem run_of_final (n : Nat) (history : List Event) (hfinal : s.final? = some v) :
    s.run p (.constant externals) n history = ⟨.returned v, []⟩ := by
  cases n <;> simp [run, hfinal]

theorem run_of_step (n : Nat) (history : List Event) (hstep : s.step p externals = .ok (s', e)) :
    s.run p (.constant externals) (n + 1) history =
      ⟨(s'.run p (.constant externals) n (e.toList ++ history)).outcome,
        e.toList ++ (s'.run p (.constant externals) n (e.toList ++ history)).events⟩ := by
  cases e <;> simp [run, final?_eq_none_of_step hstep, Environment.constant, hstep]

/-- A run goes on from the state that its first steps lead to. -/
theorem run_of_after (h : s.after p externals n = .ok (t, es)) (k : Nat) (history : List Event) :
    s.run p (.constant externals) (n + k) history =
      ⟨(t.run p (.constant externals) k (es.reverse ++ history)).outcome,
        es ++ (t.run p (.constant externals) k (es.reverse ++ history)).events⟩ := by
  induction n generalizing t es k with
  | zero =>
    cases h
    simp
  | succ n ih =>
    obtain ⟨u, es', e, h', hstep, rfl⟩ := after_succ_eq_ok_iff.mp h
    rw [show n + 1 + k = n + (k + 1) by omega, ih h', run_of_step _ _ hstep]
    cases e <;> simp

/-- A run that comes to a final state returns its value. -/
theorem run_eq_returned (h : s.after p externals k = .ok (t, es)) (hfinal : t.final? = some v)
    (hk : k ≤ n) (history : List Event) :
    s.run p (.constant externals) n history = ⟨.returned v, es⟩ := by
  have hrun := run_of_after h (n - k) history
  rw [show k + (n - k) = n by omega, run_of_final _ _ hfinal] at hrun
  simpa using hrun

/-- A run whose steps lead to no final state is unfinished. -/
theorem run_eq_unfinished (h : s.after p externals n = .ok (t, es)) (hfinal : t.final? = none)
    (history : List Event) : s.run p (.constant externals) n history = ⟨.unfinished, es⟩ := by
  simpa [run, hfinal] using run_of_after h 0 history

/-- What a run returns is the value of a final state that it comes to. -/
theorem exists_after_of_returned {history : List Event}
    (h : (s.run p (.constant externals) n history).outcome = .returned v) :
    ∃ k t, k ≤ n ∧
      s.after p externals k = .ok (t, (s.run p (.constant externals) n history).events) ∧
        t.final? = some v := by
  induction n generalizing s history with
  | zero =>
    cases hfinal : s.final? with
    | none => simp [run, hfinal] at h
    | some w =>
      simp only [run_of_final _ _ hfinal, Outcome.returned.injEq] at h ⊢
      exact ⟨0, s, Nat.le_refl 0, rfl, h ▸ hfinal⟩
  | succ n ih =>
    cases hfinal : s.final? with
    | some w =>
      simp only [run_of_final _ _ hfinal, Outcome.returned.injEq] at h ⊢
      exact ⟨0, s, Nat.zero_le _, rfl, h ▸ hfinal⟩
    | none =>
      cases hstep : s.step p externals with
      | error reason => simp [run, hfinal, Environment.constant, hstep] at h
      | ok r =>
        obtain ⟨s', e⟩ := r
        rw [run_of_step _ _ hstep] at h ⊢
        obtain ⟨k, t, hk, hafter, ht⟩ := ih h
        exact ⟨k + 1, t, by omega, after_succ_of_step hstep hafter, ht⟩

/-- An unfinished run has taken all its steps and come to no final state. -/
theorem exists_after_of_unfinished {history : List Event}
    (h : (s.run p (.constant externals) n history).outcome = .unfinished) :
    ∃ t es, s.after p externals n = .ok (t, es) ∧ t.final? = none := by
  induction n generalizing s history with
  | zero =>
    cases hfinal : s.final? with
    | none => exact ⟨s, [], rfl, hfinal⟩
    | some w => simp [run_of_final _ _ hfinal] at h
  | succ n ih =>
    cases hfinal : s.final? with
    | some w => simp [run_of_final _ _ hfinal] at h
    | none =>
      cases hstep : s.step p externals with
      | error reason => simp [run, hfinal, Environment.constant, hstep] at h
      | ok r =>
        obtain ⟨s', e⟩ := r
        rw [run_of_step _ _ hstep] at h
        obtain ⟨t, es, hafter, ht⟩ := ih h
        exact ⟨t, _, after_succ_of_step hstep hafter, ht⟩

/-! ## Accesses through pointers -/

/-- The chunk and the offset of the access through a pointer that a state is about to make. -/
def indexedAccess? (s : State) : Option (Chunk × Int64) :=
  match s.control with
  | .running f sp pc regs =>
    match f.code.at? pc with
    | some (.load c (.indexed n) args _ _) | some (.store c (.indexed n) args _ _) =>
      ((Addressing.indexed n).eval? sp (regs.list args)).map fun (_, ofs) => (c, ofs)
    | _ => none
  | _ => none

/-- The access through a pointer that a state is about to make, if it makes one, ends no further
than the last offset. -/
def AccessInRange (s : State) : Prop :=
  ∀ c ofs, s.indexedAccess? = some (c, ofs) → ofs.toInt + c.size.toInt ≤ 2 ^ 63 - 1

end State

namespace Program

/-- The state of a program after exactly `n` steps and the external calls of these steps. -/
def after (p : Program) (externals : Externals) (n : Nat) :
    Except StuckReason (State × List Event) :=
  (State.initial p).after p externals n

/-- Every access through a pointer in the first `n` steps ends no further than the last offset. -/
def AccessesInRange (p : Program) (externals : Externals) (n : Nat) : Prop :=
  ∀ k s es, k < n → p.after externals k = .ok (s, es) → s.AccessInRange

/-- The first `n` steps allocate fewer blocks than there are numbers of blocks. -/
def BlocksInRange (p : Program) (externals : Externals) (n : Nat) : Prop :=
  ∀ k s es, k ≤ n → p.after externals k = .ok (s, es) → s.memory.regions.size < 2 ^ 32 - 1

variable {p : Program} {externals : Externals} {n k : Nat}

theorem AccessesInRange.of_le (h : p.AccessesInRange externals n) (hk : k ≤ n) :
    p.AccessesInRange externals k :=
  fun j s es hj => h j s es (Nat.lt_of_lt_of_le hj hk)

theorem BlocksInRange.of_le (h : p.BlocksInRange externals n) (hk : k ≤ n) :
    p.BlocksInRange externals k :=
  fun j s es hj => h j s es (Nat.le_trans hj hk)

end Program

end RegisterTransfer
