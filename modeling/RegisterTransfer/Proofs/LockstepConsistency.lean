import RegisterTransfer.Proofs.LockstepAcceptance
set_option autoImplicit false

/-!
# What a comparison never reports

Some of the ways in which a comparison could end are there for safety only: the witness always fits
the source's stack, and some of the reasons for a divergence never arise, whatever the target does
(`Simulation.run_not_excluded`).  A check that has passed leaves few steps to both programs
(`Witness.Agrees`), and each of them leads to states and a witness of which the next check can only
find the other reasons (`Witness.Fits`).
-/

namespace RegisterTransfer

/-- Whether a reason for a divergence is one that no comparison comes to. -/
def Reason.excluded : Reason → Bool
  | .targetNotFinal | .skippedEvent _ | .measure .. | .skippedSteps .. | .noTargetFrame ..
  | .epilogueStack .. => true
  | .initial r => r.excluded
  | _ => false

/-- Whether a verdict is one that no comparison comes to. -/
def Verdict.excluded : Verdict → Bool
  | .inconsistent => true
  | .diverged r => r.excluded
  | _ => false

/-! ## Single instructions -/

/-- The states that an instruction of a function can lead to: it stays in the function, calls, or
frees the function's block and leaves by a tail call or a return. -/
inductive Instr.Leads (stack : List Frame) (m : Memory) (f : Function) (sp : Block) : State → Prop
  | stays {m' : Memory} {pc : Point} {regs : Registers}
      (hsize : m'.regions.size = m.regions.size) :
      Leads stack m f sp ⟨stack, m', .running f sp pc regs⟩
  | calls {fr : Frame} {name : String} {args : List Val} :
      Leads stack m f sp ⟨fr :: stack, m, .calling name args⟩
  | leaves {m' : Memory} {name : String} {args : List Val} (hfree : m.free sp = .ok m') :
      Leads stack m f sp ⟨stack, m', .calling name args⟩
  | returns {m' : Memory} {v : Val} (hfree : m.free sp = .ok m') :
      Leads stack m f sp ⟨stack, m', .returning v⟩

namespace Instr

variable {p : Program} {stack : List Frame} {m : Memory} {f : Function} {sp : Block}
variable {regs : Registers} {i : Instr} {s : State}

theorem leads (h : i.execute p stack m f sp regs = .ok s) : Leads stack m f sp s := by
  cases i with
  | nop succ =>
    cases h
    exact .stays rfl
  | op o args dest succ =>
    obtain ⟨v, _, rfl⟩ := execute_op_iff.mp h
    exact .stays rfl
  | load c a args dest succ =>
    obtain ⟨b, ofs, _, v, _, rfl⟩ := execute_load_iff.mp h
    exact .stays rfl
  | store c a args src succ =>
    obtain ⟨b, ofs, _, m', hstore, rfl⟩ := execute_store_iff.mp h
    exact .stays (Memory.size_store hstore)
  | call sig callee args dest succ =>
    obtain ⟨name, _, rfl⟩ := execute_call_iff.mp h
    exact .calls
  | tailcall sig callee args =>
    obtain ⟨name, _, m', hfree, rfl⟩ := execute_tailcall_iff.mp h
    exact .leaves hfree
  | cond c args ifTrue ifFalse =>
    obtain ⟨b, _, rfl⟩ := execute_cond_iff.mp h
    exact .stays rfl
  | ret value =>
    obtain ⟨m', hfree, rfl⟩ := execute_ret_iff.mp h
    exact .returns hfree

theorem Leads.size_eq (h : Leads stack m f sp s) :
    s.memory.regions.size = m.regions.size := by
  cases h with
  | stays hsize => exact hsize
  | calls => rfl
  | leaves hfree | returns hfree =>
    exact Memory.size_free hfree

/-- An instruction pushes at most one frame. -/
theorem Leads.stack_cases (h : Leads stack m f sp s) :
    s.stack = stack ∨ ∃ fr, s.stack = fr :: stack := by
  cases h with
  | calls => exact .inr ⟨_, rfl⟩
  | stays | leaves | returns => exact .inl rfl

/-- An instruction of an epilogue stays in its function or returns, and decreases the measure. -/
theorem execute_epilogue {bound : Int} {pc : Point} {r : Reg}
    (hreturn : f.code.isReturn pc r bound) (hi : f.code.at? pc = some i)
    (h : i.execute p stack m f sp regs = .ok s) :
    s.stack = stack ∧ (∀ g b pc' regs', s.control = .running g b pc' regs' → g = f) ∧
      s.measure bound < State.measure ⟨stack, m, .running f sp pc regs⟩ bound := by
  rcases Code.isReturn_cases hreturn with ⟨value, hat, _⟩ | ⟨succ, hat, _, hmeasure⟩ |
    ⟨dest, succ, hat, _, hmeasure⟩
  · obtain rfl := Option.some.inj (hi.symm.trans hat)
    obtain ⟨m', _, rfl⟩ := execute_ret_iff.mp h
    refine ⟨rfl, fun g b pc' regs' hs => (by cases hs), ?_⟩
    simp only [State.measure, State.depth]
    omega
  · obtain rfl := Option.some.inj (hi.symm.trans hat)
    cases h
    refine ⟨rfl, fun g b pc' regs' hs => (by cases hs; rfl), ?_⟩
    simp only [State.measure, State.depth]
    omega
  · obtain rfl := Option.some.inj (hi.symm.trans hat)
    obtain ⟨v, _, rfl⟩ := execute_op_iff.mp h
    refine ⟨rfl, fun g b pc' regs' hs => (by cases hs; rfl), ?_⟩
    simp only [State.measure, State.depth]
    omega

end Instr

/-! ## What a check leaves -/

namespace Witness

variable {bound : Int} {w : Witness} {p q : Program} {externals externals' : Externals}
variable {s s' t t' : State} {e e' : Option Event}

/-- What two programs can be about to do when the check has passed. -/
inductive ControlsAgree (bound : Int) (expect : Reg) : Control → Control → Prop
  | running {f f' : Function} {sp : Block} {pc : Point} {regs regs' : Registers} :
      ControlsAgree bound expect (.running f sp pc regs) (.running f' sp pc regs')
  | epilogue {f : Function} {sp : Block} {pc : Point} {regs : Registers} {v : Val}
      (hstack : f.stackSize = 0) (hreturn : f.code.isReturn pc expect bound) :
      ControlsAgree bound expect (.running f sp pc regs) (.returning v)
  | calling {callee : String} {args args' : List Val} :
      ControlsAgree bound expect (.calling callee args) (.calling callee args')
  | returning {v v' : Val} : ControlsAgree bound expect (.returning v) (.returning v')

theorem controlsAgree {c c' : Control} (h : w.controlMismatch? bound c c' = none) :
    ControlsAgree bound w.expect c c' := by
  unfold controlMismatch? at h
  split at h
  · split at h
    · cases h
    · rename_i hposition
      split at h
      · cases h
      · rename_i hblock
        obtain ⟨_, rfl⟩ := not_or.mp hposition |>.imp not_not.mp not_not.mp
        obtain rfl := not_not.mp hblock
        exact .running
  · split at h
    · cases h
    · rename_i hstack
      split at h
      · cases h
      · rename_i hreturn
        exact .epilogue (not_not.mp hstack) (by simpa using hreturn)
  · split at h
    · cases h
    · rename_i hcallee
      obtain rfl := not_not.mp hcallee
      exact .calling
  · exact .returning
  · cases h

/-- What is known of the states and the witness when a check has passed: there is a flag for every
source frame, the frames that are not elided are as many as the target's, and the elided ones do
nothing but return. -/
structure Agrees (bound : Int) (w : Witness) (s t : State) : Prop where
  length : w.elided.length = s.stack.length
  kept : w.elided.count false = t.stack.length
  elided : ∀ fr, (fr, true) ∈ s.stack.zip w.elided → fr.Returns bound
  control : ControlsAgree bound w.expect s.control t.control

theorem agrees (hlength : w.elided.length = s.stack.length)
    (hmatch : w.mismatch? bound s t = none) : w.Agrees bound s t := by
  obtain ⟨_, _, _, hstacks, hcontrol⟩ := mismatch?_eq_none_iff.mp hmatch
  have hframes := (stackMismatch?_eq_none_iff.mp hstacks).1.reverse
  simp only [List.reverse_reverse] at hframes
  refine ⟨hlength, ?_, fun fr hfr => hframes.of_mem_elided hfr, controlsAgree hcontrol⟩
  rw [← hframes.count_false, List.map_snd_zip (Nat.le_of_eq hlength)]

/-- What is known of the states and the witness before a check: there is a flag for every source
frame, the target has at least the frames that are not elided, both programs have allocated equally
many blocks, and a function that runs while the target returns has no stack, or the target has freed
its block. -/
structure Fits (w : Witness) (s t : State) : Prop where
  length : w.elided.length = s.stack.length
  kept : w.elided.count false ≤ t.stack.length
  blocks : s.memory.regions.size = t.memory.regions.size
  epilogue : ∀ f sp pc regs v, s.control = .running f sp pc regs → t.control = .returning v →
    f.stackSize = 0 ∨ ∃ lo hi, t.memory.region? sp = some ⟨lo, hi, none⟩

theorem Fits.initial (p q : Program) : start.Fits (.initial p) (.initial q) where
  length := rfl
  kept := Nat.le_refl 0
  blocks := rfl
  epilogue f sp pc regs v hs := by cases hs

/-! ## Checks -/

theorem not_excluded_of_elision? {n : Nat} {fr : Frame} {r : Reason}
    (h : fr.elision? bound n = some r) : r.excluded = false := by
  unfold Frame.elision? at h
  split at h
  · cases h
    rfl
  · split at h <;> cases h
    rfl

theorem not_excluded_of_frame {n : Nat} {fr fr' : Frame} {r : Reason}
    (h : fr.mismatch? n fr' = some r) : r.excluded = false := by
  unfold Frame.mismatch? at h
  split at h
  · cases h
    rfl
  · split at h
    · cases h
      rfl
    · split at h <;> cases h
      rfl

/-- The frames that are not elided are never too many. -/
theorem not_excluded_of_stackMismatch? {total n matched : Nat} {ss : List (Frame × Bool)}
    {ts : List Frame} {r : Reason} (hkept : (ss.map Prod.snd).count false ≤ ts.length)
    (h : stackMismatch? bound total n matched ss ts = some r) : r.excluded = false := by
  induction ss generalizing n matched ts with
  | nil =>
    cases ts with
    | nil =>
      simp only [stackMismatch?] at h
      split at h <;> cases h
      rfl
    | cons t ts =>
      cases h
      rfl
  | cons x ss ih =>
    obtain ⟨fr, _ | _⟩ := x
    · cases ts with
      | nil => simp at hkept
      | cons t ts =>
        simp only [stackMismatch?] at h
        split at h
        · rename_i hframe
          cases h
          exact not_excluded_of_frame hframe
        · refine ih ?_ h
          simpa using hkept
    · simp only [stackMismatch?] at h
      split at h
      · rename_i helision
        cases h
        exact not_excluded_of_elision? helision
      · refine ih ?_ h
        simpa using hkept

/-- What two programs are about to do gives an excluded reason only where the source runs a function
with a stack and the target returns. -/
theorem epilogue_of_excluded {c c' : Control} {r : Reason}
    (h : w.controlMismatch? bound c c' = some r) (hr : r.excluded) :
    ∃ f sp pc regs v, c = .running f sp pc regs ∧ c' = .returning v ∧ f.stackSize ≠ 0 := by
  unfold controlMismatch? at h
  split at h
  · split at h
    · cases h
      cases hr
    · split at h
      · cases h
        cases hr
      · split at h <;> cases h
        cases hr
  · split at h
    · rename_i hstack
      exact ⟨_, _, _, _, _, rfl, rfl, hstack⟩
    · split at h
      · cases h
        cases hr
      · split at h <;> cases h
        cases hr
  · split at h
    · cases h
      cases hr
    · split at h <;> cases h
      cases hr
  · split at h <;> cases h
    cases hr
  · cases h
    cases hr

/-- A block that the source has and the target has freed is without room. -/
theorem stackSize_eq_zero {f : Function} {sp : Block} {pc : Point} {regs : Registers}
    {lo hi : Int64} (hmemory : s.memory.Extends t.memory) (hsource : s.stackError? = none)
    (hcontrol : s.control = .running f sp pc regs)
    (hfreed : t.memory.region? sp = some ⟨lo, hi, none⟩) : f.stackSize = 0 := by
  have hmem : (f, sp) ∈ s.frames := by simp [State.frames, hcontrol]
  obtain ⟨_, lo', hi', cells, hr, hsize⟩ :=
    (State.stackError?_eq_none_iff.mp hsource).holds f sp hmem
  obtain ⟨_, hfreed', hle⟩ := hmemory.exists_region hr
  cases hfreed.symm.trans hfreed'
  have heq : hi' = lo' := hle
  rw [← hsize, heq, Int64.sub_self]

/-- A check finds no excluded reason. -/
theorem Fits.not_excluded (h : w.Fits s t) {r : Reason} (hr : w.mismatch? bound s t = some r) :
    r.excluded = false := by
  simp only [mismatch?, Option.orElse_eq_some, Option.map_eq_some_iff, Option.map_eq_none_iff] at hr
  rcases hr with ⟨m, _, rfl⟩ | ⟨hmemory, ⟨e, _, rfl⟩ | ⟨hsource, ⟨e, _, rfl⟩ | ⟨_, hr⟩⟩⟩
  · rfl
  · rfl
  · rfl
  · rcases hr with hstacks | ⟨_, hcontrol⟩
    · refine not_excluded_of_stackMismatch? ?_ hstacks
      rw [List.map_reverse, List.map_snd_zip (Nat.le_of_eq h.length), List.count_reverse,
        List.length_reverse]
      exact h.kept
    · -- The function's block would be freed in the target, and so the function without a stack.
      by_contra hexcluded
      obtain ⟨f, sp, pc, regs, v, hs, ht, hstack⟩ :=
        epilogue_of_excluded hcontrol (by simpa using hexcluded)
      rcases h.epilogue f sp pc regs v hs ht with hzero | ⟨lo, hi, hfreed⟩
      · exact hstack hzero
      · exact hstack (stackSize_eq_zero hmemory hsource hs hfreed)

/-! ## Steps -/

theorem elided_afterSkip_running {f : Function} {sp : Block} {pc : Point} {regs : Registers}
    (w : Witness) (s : State) (hs : s.control = .running f sp pc regs) :
    (w.afterSkip s).elided = w.elided := by
  simp only [afterSkip, hs]
  split
  · split <;> rfl
  · rfl

/-- A step that the target skips is silent and decreases the measure, and the next check finds a
witness that fits. -/
theorem Agrees.skip (h : w.Agrees bound s t)
    (hblocks : s.memory.regions.size = t.memory.regions.size) (hskips : w.skips s t)
    (hstep : s.step p externals = .ok (s', e)) :
    e = none ∧ (w.afterSkip s).Fits s' t ∧ 0 ≤ bound ∧ s'.measure bound < s.measure bound := by
  obtain ⟨hlength, hkept, helided, hcontrol⟩ := h
  obtain ⟨stack, m, control⟩ := s
  obtain ⟨stack', m', control'⟩ := t
  cases hcontrol with
  | running => cases hskips
  | calling => cases hskips
  | @epilogue f sp pc regs v hstack hreturn =>
    obtain ⟨rfl, i, hi, hexecute⟩ := step_running_iff.mp hstep
    obtain ⟨hstack', hsame, hmeasure⟩ := Instr.execute_epilogue hreturn hi hexecute
    have hbound := Code.measure_lt_of_isReturn hreturn
    have hflags := elided_afterSkip_running w ⟨stack, m, .running f sp pc regs⟩ rfl
    refine ⟨rfl, ⟨?_, ?_, (Instr.leads hexecute).size_eq.trans hblocks, ?_⟩, by omega, hmeasure⟩
    · rw [hflags, hstack']
      exact hlength
    · rw [hflags]
      exact Nat.le_of_eq hkept
    · intro g b n rs v' hs _
      exact .inl (hsame g b n rs hs ▸ hstack)
  | returning =>
    obtain ⟨elided, expect⟩ := w
    cases stack with
    | nil => cases hskips
    | cons fr stack =>
      cases hstep
      cases elided with
      | nil => cases hlength
      | cons flag rest =>
        obtain rfl : flag = true := by simpa [skips] using hskips
        obtain ⟨hstack, hreturn⟩ := helided fr List.mem_cons_self
        have hbound := Code.measure_lt_of_isReturn hreturn
        refine ⟨rfl, ⟨Nat.succ.inj hlength, ?_, hblocks, ?_⟩, by omega, ?_⟩
        · simpa [afterSkip] using Nat.le_of_eq hkept
        · intro g b n rs v' hs
          cases hs
          exact fun _ => .inl hstack
        · simp only [State.measure, State.depth, List.length_cons, Int.natCast_succ, Int.add_mul]
          omega

/-- Two functions execute an instruction each. -/
theorem Agrees.execute {stack stack' : List Frame} {m m' : Memory} {f f' : Function} {sp : Block}
    (hlength : w.elided.length = stack.length) (hkept : w.elided.count false = stack'.length)
    (hblocks : m.regions.size = m'.regions.size) (hs : Instr.Leads stack m f sp s')
    (ht : Instr.Leads stack' m' f' sp t') :
    ∃ w', w.afterPair? stack.length s'.depth stack'.length t'.depth = some w' ∧ w'.Fits s' t' := by
  have hsize : s'.memory.regions.size = t'.memory.regions.size :=
    hs.size_eq.trans (hblocks.trans ht.size_eq.symm)
  have hepilogue : ∀ g b pc regs v, s'.control = .running g b pc regs → t'.control = .returning v →
      g.stackSize = 0 ∨ ∃ lo hi, t'.memory.region? b = some ⟨lo, hi, none⟩ := by
    intro g b pc regs v hsource htarget
    cases hs <;> cases hsource
    cases ht <;> cases htarget
    rename_i hfree
    obtain ⟨lo, hi, cells, hr, rfl⟩ := Memory.free_eq_ok_iff.mp hfree
    exact .inr ⟨lo, hi, Memory.region?_setRegion_self _ hr⟩
  rcases hs.stack_cases with hstack | ⟨fr, hstack⟩
  · refine ⟨w, by simp [afterPair?, State.depth, hstack], by rw [hlength, hstack], ?_, hsize,
      hepilogue⟩
    rcases ht.stack_cases with hstack' | ⟨fr', hstack'⟩ <;> simp [hkept, hstack']
  · refine ⟨⟨(t'.depth == stack'.length) :: w.elided, w.expect⟩,
      by simp [afterPair?, State.depth, hstack], by simp [hlength, hstack], ?_, hsize, hepilogue⟩
    -- A call that the target matches by a call adds a frame to both counts.
    rcases ht.stack_cases with hstack' | ⟨fr', hstack'⟩ <;>
      simp [State.depth, hkept, hstack', List.count_cons]

/-- A step of both programs with matching events leads to a witness that fits. -/
theorem Agrees.pair (h : w.Agrees bound s t)
    (hblocks : s.memory.regions.size = t.memory.regions.size) (hskips : ¬ w.skips s t)
    (hstep : s.step p externals = .ok (s', e)) (hstep' : t.step q externals' = .ok (t', e'))
    (hevents : Event.mismatch? e e' = none) :
    ∃ w', w.afterPair? s.depth s'.depth t.depth t'.depth = some w' ∧ w'.Fits s' t' := by
  obtain ⟨hlength, hkept, _, hcontrol⟩ := h
  obtain ⟨stack, m, control⟩ := s
  obtain ⟨stack', m', control'⟩ := t
  cases hcontrol with
  | running =>
    obtain ⟨rfl, i, _, hexecute⟩ := step_running_iff.mp hstep
    obtain ⟨rfl, i', _, hexecute'⟩ := step_running_iff.mp hstep'
    exact Agrees.execute hlength hkept hblocks (Instr.leads hexecute) (Instr.leads hexecute')
  | epilogue => exact absurd rfl hskips
  | calling =>
    rcases call_eq_ok_iff.mp hstep with ⟨f, _, rfl, rfl⟩ | ⟨_, external, _, rfl, rfl⟩ <;>
      rcases call_eq_ok_iff.mp hstep' with ⟨f', _, rfl, rfl⟩ | ⟨_, external', _, rfl, rfl⟩
    · refine ⟨w, by simp [afterPair?, State.depth, State.enter], hlength, Nat.le_of_eq hkept,
        ?_, ?_⟩
      · simpa [State.enter, Memory.alloc] using hblocks
      · intro g b pc regs v _ ht
        cases ht
    · cases hevents
    · cases hevents
    · refine ⟨w, by simp [afterPair?, State.depth], hlength, Nat.le_of_eq hkept, hblocks, ?_⟩
      intro g b pc regs v hs
      cases hs
  | returning =>
    obtain ⟨elided, expect⟩ := w
    cases stack with
    | nil => cases hstep
    | cons fr stack =>
      cases hstep
      cases stack' with
      | nil => cases hstep'
      | cons fr' stack' =>
        cases hstep'
        cases elided with
        | nil => cases hlength
        | cons flag rest =>
          obtain rfl : flag = false := by simpa [skips] using hskips
          refine ⟨⟨rest, expect⟩, ?_, Nat.succ.inj hlength, ?_, hblocks, ?_⟩
          · simp [afterPair?, State.depth]
          · simpa using Nat.le_of_eq hkept
          · intro g b pc regs v _ ht
            cases ht

/-- Where the source has returned for good, so has the target. -/
theorem Agrees.final? (h : w.Agrees bound s t) {v : Val} (hfinal : s.final? = some v) :
    ∃ v', t.final? = some v' := by
  obtain ⟨hlength, hkept, _, hcontrol⟩ := h
  obtain ⟨stack, m, control⟩ := s
  obtain ⟨stack', m', control'⟩ := t
  obtain ⟨rfl, rfl⟩ := State.final?_eq_some_iff.mp hfinal
  have helided : w.elided = [] := List.length_eq_zero_iff.mp hlength
  cases hcontrol with
  | @returning _ v' =>
    rw [helided] at hkept
    obtain rfl : stack' = [] := List.length_eq_zero_iff.mp hkept.symm
    exact ⟨v', rfl⟩

end Witness

theorem Event.not_excluded {e e' : Option Event} {r : Reason} (h : Event.mismatch? e e' = some r) :
    r.excluded = false := by
  unfold Event.mismatch? at h
  split at h
  · cases h
  · cases h
    rfl
  · cases h
    rfl
  · split at h <;> cases h
    rfl

/-! ## Comparisons -/

namespace Lockstep

variable {c : Simulation.Setting} {k k' k'' : Lockstep} {s : State} {e : Option Event} {v : Verdict}

/-- After so many steps, the measures of the source still fit in 64 bits. -/
def MeasuresFit (c : Simulation.Setting) (n : Nat) : Prop :=
  ((n : Int) + 1) * (c.bound + 2) < 2 ^ 63

/-- What is known of a comparison before a check. -/
structure Coherent (k : Lockstep) : Prop where
  fits : k.witness.Fits k.source k.target
  active : k.source.frames.length ≤ k.steps

/-- In a row of skipped steps, the measure that is left and the steps that were skipped are together
no more than the measure at the start of the row. -/
def RowFits (c : Simulation.Setting) (k : Lockstep) : Prop :=
  k.stutterRun = 0 ∨ k.stutterRun + k.source.measure c.bound ≤ k.runStart.toInt

theorem Coherent.start (c : Simulation.Setting) : (start c).Coherent :=
  ⟨.initial c.source c.target, Nat.le_refl 0⟩

theorem agrees_of_confirm (h : k.confirm c = .ok k) :
    k.witness.Agrees c.bound k.source k.target := by
  obtain ⟨_, hlength, hmatch⟩ := confirm_eq_ok_iff.mp h
  exact Witness.agrees hlength hmatch

theorem Coherent.confirm (h : k.Coherent) (herror : k.confirm c = .error (k', v)) :
    v.excluded = false := by
  unfold Lockstep.confirm at herror
  split at herror
  · rename_i hlength
    exact absurd h.fits.length hlength
  · split at herror
    · rename_i r hr
      cases herror
      exact h.fits.not_excluded hr
    · cases herror

theorem Coherent.active_step (h : k.Coherent)
    (hstep : k.source.step c.source (c.env k.history) = .ok (s, e)) :
    s.frames.length ≤ k.steps + 1 :=
  Nat.le_trans (State.step_effect hstep).length_frames_le (Nat.succ_le_succ h.active)

/-- A step that the target skips passes all the checks that are made of it, if no measure wraps
around. -/
theorem Coherent.follow_skip (h : k.Coherent) (hconfirm : k.confirm c = .ok k)
    (hrow : k.RowFits c) (hskips : k.witness.skips k.source k.target)
    (hstep : k.source.step c.source (c.env k.history) = .ok (s, e)) {n : Nat} (hn : k.steps < n)
    (hmeasure : MeasuresFit c n) : ∃ k', k.follow c s e = .ok k' ∧ k'.RowFits c := by
  obtain ⟨rfl, _, hbound, hdecreases⟩ :=
    (agrees_of_confirm hconfirm).skip h.fits.blocks hskips hstep
  have hbefore : (k.source.measure64 c.bound).toInt = k.source.measure c.bound :=
    State.toInt_measure64_of_depth hbound (k.source.depth_le_length_frames.trans (by
      have := h.active
      omega)) hmeasure
  have hafter : (s.measure64 c.bound).toInt = s.measure c.bound :=
    State.toInt_measure64_of_depth hbound (s.depth_le_length_frames.trans (by
      have := h.active_step hstep
      omega)) hmeasure
  obtain ⟨start, hrow', hskip⟩ := skip_of_decreases (k := k.moved s none) (c := c)
    (k.source.measure64 c.bound) (s.measure_nonneg hbound) hafter (hbefore ▸ hdecreases)
    (hbefore ▸ hrow)
  rw [Lockstep.follow, if_pos hskips]
  exact ⟨_, hskip, .inr hrow'⟩

/-- A step that the target follows leads to a coherent comparison. -/
theorem Coherent.follow (h : k.Coherent) (hconfirm : k.confirm c = .ok k)
    (hstep : k.source.step c.source (c.env k.history) = .ok (s, e))
    (hfollow : k.follow c s e = .ok k') : k'.Coherent := by
  have hagrees := agrees_of_confirm hconfirm
  have hactive := h.active_step hstep
  unfold Lockstep.follow at hfollow
  split at hfollow
  · rename_i hskips
    obtain ⟨rfl, _, _, rfl⟩ := skip_eq_ok_iff.mp hfollow
    obtain ⟨_, hfits, _⟩ := hagrees.skip h.fits.blocks hskips hstep
    exact ⟨by simpa [moved, hskips] using hfits, hactive⟩
  · rename_i hskips
    obtain ⟨t, e', w, hstep', hevents, hw, rfl⟩ := pair_eq_ok_iff.mp hfollow
    obtain ⟨w', hw', hfits⟩ := hagrees.pair h.fits.blocks hskips hstep hstep' hevents
    have heq : w = w' := by
      simp only [moved, hskips] at hw
      exact Option.some.inj (hw.symm.trans hw')
    exact ⟨heq ▸ hfits, hactive⟩

/-- A matched step never ends in an excluded verdict. -/
theorem Coherent.follow_pair (h : k.Coherent) (hconfirm : k.confirm c = .ok k)
    (hskips : ¬ k.witness.skips k.source k.target)
    (hstep : k.source.step c.source (c.env k.history) = .ok (s, e))
    (hfollow : k.follow c s e = .error (k', v)) : v.excluded = false := by
  rw [Lockstep.follow, if_neg hskips] at hfollow
  simp only [Lockstep.pair] at hfollow
  split at hfollow
  · cases hfollow
    rfl
  · rename_i t e' hstep'
    split at hfollow
    · rename_i r hevents
      cases hfollow
      exact Event.not_excluded hevents
    · rename_i hevents
      obtain ⟨w', hw', _⟩ :=
        (agrees_of_confirm hconfirm).pair h.fits.blocks hskips hstep hstep' hevents
      split at hfollow
      · cases hfollow
      · rename_i hw
        simp only [moved, hskips] at hw
        cases hw.symm.trans hw'

/-- A matched step ends a row of skipped steps, and a skipped one continues it. -/
theorem Coherent.rowFits_follow (h : k.Coherent) (hconfirm : k.confirm c = .ok k)
    (hrow : k.RowFits c) (hstep : k.source.step c.source (c.env k.history) = .ok (s, e)) {n : Nat}
    (hn : k.steps < n) (hmeasure : MeasuresFit c n) (hfollow : k.follow c s e = .ok k') :
    k'.RowFits c := by
  by_cases hskips : k.witness.skips k.source k.target
  · obtain ⟨k'', hfollow', hrow'⟩ := h.follow_skip hconfirm hrow hskips hstep hn hmeasure
    obtain rfl := Except.ok.inj (hfollow.symm.trans hfollow')
    exact hrow'
  · rw [Lockstep.follow, if_neg hskips] at hfollow
    obtain ⟨t, e', w, _, _, _, rfl⟩ := pair_eq_ok_iff.mp hfollow
    exact .inl rfl

/-- A comparison that ends in a step does not end in an excluded verdict. -/
theorem Coherent.advance_eq_error (h : k.Coherent) (hconfirm : k.confirm c = .ok k)
    (hrow : k.RowFits c) (hmeasure : MeasuresFit c k'.steps)
    (hadvance : k.advance c = .error (k', v)) : v.excluded = false := by
  rcases Lockstep.advance_eq_error hadvance with ⟨rfl, _, _⟩ | ⟨_, hsteps⟩
  · rfl
  · unfold Lockstep.advance at hadvance
    split at hadvance
    · cases hadvance
      rfl
    · rename_i s e hstep
      cases hfollow : k.follow c s e with
      | ok k'' =>
        rw [hfollow] at hadvance
        exact (h.follow hconfirm hstep hfollow).confirm hadvance
      | error r =>
        rw [hfollow] at hadvance
        cases hadvance
        by_cases hskips : k.witness.skips k.source k.target
        · obtain ⟨k'', hfollow', _⟩ :=
            h.follow_skip hconfirm hrow hskips hstep (n := k'.steps) (by omega) hmeasure
          cases hfollow.symm.trans hfollow'
        · exact h.follow_pair hconfirm hskips hstep hfollow

/-- A comparison whose source has returned ends with the values of both programs. -/
theorem not_excluded_of_final (hconfirm : k.confirm c = .ok k) {x : Val}
    (hfinal : k.source.final? = some x) (n : Nat) : (k.run c n).2.excluded = false := by
  obtain ⟨y, hfinal'⟩ := (agrees_of_confirm hconfirm).final? hfinal
  cases n <;> simp [Lockstep.run, hfinal, hfinal', Verdict.excluded]

/-- A comparison does not end in an excluded verdict, if the steps that it counts in the end are so
few that no measure wraps around. -/
theorem Coherent.run (n : Nat) (h : k.Coherent) (hconfirm : k.confirm c = .ok k)
    (hrow : k.RowFits c) (hmeasure : MeasuresFit c (k.run c n).1.steps) :
    (k.run c n).2.excluded = false := by
  induction n generalizing k with
  | zero =>
    cases hfinal : k.source.final? with
    | some x => exact not_excluded_of_final hconfirm hfinal 0
    | none => simp [Lockstep.run, hfinal, Verdict.excluded]
  | succ n ih =>
    cases hfinal : k.source.final? with
    | some x => exact not_excluded_of_final hconfirm hfinal (n + 1)
    | none =>
      cases hadvance : k.advance c with
      | error r =>
        simp only [Lockstep.run, hfinal, hadvance] at hmeasure ⊢
        exact h.advance_eq_error hconfirm hrow hmeasure hadvance
      | ok k' =>
        simp only [Lockstep.run, hfinal, hadvance] at hmeasure ⊢
        obtain ⟨s, e, hstep, hfollow, hlength, hmatch⟩ := advance_eq_ok_iff.mp hadvance
        have hsteps : k.steps < (k'.run c n).1.steps :=
          Nat.lt_of_lt_of_le ((follow_eq_ok hfollow).2.1 ▸ Nat.lt_succ_self _) (steps_le_run c n k')
        exact ih (h.follow hconfirm hstep hfollow) (confirm_eq_ok_iff.mpr ⟨rfl, hlength, hmatch⟩)
          (h.rowFits_follow hconfirm hrow hstep hsteps hmeasure hfollow) hmeasure

/-! ## Points of a comparison -/

/-- The comparison comes from a point where the check has passed to the next one, of which the check
is still to be made. -/
def Next (c : Simulation.Setting) (k k' : Lockstep) : Prop :=
  k.confirm c = .ok k ∧ ∃ s e, k.source.step c.source (c.env k.history) = .ok (s, e) ∧
    k.follow c s e = .ok k'

/-- The points of a comparison at which a check is made. -/
inductive Reached (c : Simulation.Setting) : Lockstep → Prop
  | start : Reached c (start c)
  | next {k k' : Lockstep} (h : Reached c k) (hnext : Next c k k') : Reached c k'

/-- A number of steps in a row that the target skips, from one point of a comparison to another. -/
inductive SkippedRow (c : Simulation.Setting) : Nat → Lockstep → Lockstep → Prop
  | single {k k' : Lockstep} (h : Reached c k) (hskips : k.witness.skips k.source k.target)
      (hnext : Next c k k') : SkippedRow c 1 k k'
  | cons {n : Nat} {k k' k'' : Lockstep} (h : SkippedRow c n k k')
      (hskips : k'.witness.skips k'.source k'.target) (hnext : Next c k' k'') :
      SkippedRow c (n + 1) k k''

theorem Next.of_advance (hconfirm : k.confirm c = .ok k) (h : k.advance c = .ok k') :
    Next c k k' ∧ k'.confirm c = .ok k' := by
  obtain ⟨s, e, hstep, hfollow, hlength, hmatch⟩ := advance_eq_ok_iff.mp h
  exact ⟨⟨hconfirm, s, e, hstep, hfollow⟩, confirm_eq_ok_iff.mpr ⟨rfl, hlength, hmatch⟩⟩

/-- Where a comparison is cut off, it has reached a point where the check passes. -/
theorem Reached.of_truncated {n : Nat} (h : Reached c k) (hconfirm : k.confirm c = .ok k)
    (hrun : (k.run c n).2 = .truncated) :
    Reached c (k.run c n).1 ∧ (k.run c n).1.confirm c = .ok (k.run c n).1 := by
  induction n generalizing k with
  | zero =>
    unfold Lockstep.run at hrun ⊢
    split at hrun <;> cases hrun
    exact ⟨h, hconfirm⟩
  | succ n ih =>
    cases hadvance : k.advance c with
    | error r =>
      obtain ⟨k', v⟩ := r
      simp only [Lockstep.run, hadvance] at hrun
      split at hrun
      · cases hrun
      · cases hrun
      · obtain rfl : v = .truncated := hrun
        rcases Lockstep.advance_eq_error hadvance with ⟨hv, _⟩ | ⟨hv, _⟩ <;> cases hv
    | ok k' =>
      simp only [Lockstep.run, hadvance] at hrun ⊢
      split at hrun
      · cases hrun
      · cases hrun
      · obtain ⟨hnext, hconfirm'⟩ := Next.of_advance hconfirm hadvance
        exact ih (h.next hnext) hconfirm' hrun

theorem Reached.coherent (h : Reached c k) : k.Coherent := by
  induction h with
  | start => exact .start c
  | next _ hnext ih =>
    obtain ⟨hconfirm, s, e, hstep, hfollow⟩ := hnext
    exact ih.follow hconfirm hstep hfollow

/-- A skipped step decreases the measure. -/
theorem Next.measure_lt (h : Next c k k') (hcoherent : k.Coherent)
    (hskips : k.witness.skips k.source k.target) :
    0 ≤ c.bound ∧ k'.source.measure c.bound < k.source.measure c.bound := by
  obtain ⟨hconfirm, s, e, hstep, hfollow⟩ := h
  obtain ⟨_, _, hbound, hdecreases⟩ :=
    (agrees_of_confirm hconfirm).skip hcoherent.fits.blocks hskips hstep
  exact ⟨hbound, (follow_eq_ok hfollow).1 ▸ hdecreases⟩

/-- The steps of a row are paid for by the measure. -/
theorem SkippedRow.measure_le {n : Nat} (h : SkippedRow c n k k') :
    Reached c k ∧ Reached c k' ∧ 0 ≤ c.bound ∧
      n + k'.source.measure c.bound ≤ k.source.measure c.bound := by
  induction h with
  | single h hskips hnext =>
    obtain ⟨hbound, hdecreases⟩ := hnext.measure_lt h.coherent hskips
    exact ⟨h, h.next hnext, hbound, by omega⟩
  | cons _ hskips hnext ih =>
    obtain ⟨hstart, hlast, hbound, hle⟩ := ih
    obtain ⟨_, hdecreases⟩ := hnext.measure_lt hlast.coherent hskips
    exact ⟨hstart, hlast.next hnext, hbound, by omega⟩

/-- A row is no longer than the measure at its start. -/
theorem SkippedRow.le_measure64 {n : Nat} (h : SkippedRow c n k k')
    (hmeasure : MeasuresFit c k.steps) : n ≤ (k.source.measure64 c.bound).toInt := by
  obtain ⟨hk, _, hbound, hle⟩ := h.measure_le
  have hnonneg := k'.source.measure_nonneg hbound
  rw [State.toInt_measure64_of_depth hbound
    (k.source.depth_le_length_frames.trans hk.coherent.active) hmeasure]
  omega

end Lockstep

/-! ## Whole comparisons -/

namespace Simulation

theorem start_not_excluded {c : Setting} {n : Nat}
    (hmeasure : Lockstep.MeasuresFit c (start c n).last.steps) :
    (start c n).verdict.excluded = false := by
  cases hconfirm : (Lockstep.start c).confirm c with
  | error r =>
    obtain ⟨k, v⟩ := r
    have hv : v.excluded = false := (Lockstep.Coherent.start c).confirm hconfirm
    cases v with
    | diverged r => simpa [start, hconfirm, Verdict.excluded, Reason.excluded] using hv
    | _ => simpa [start, hconfirm] using hv
  | ok k =>
    obtain ⟨rfl, _, hmatch⟩ := Lockstep.confirm_eq_ok_iff.mp hconfirm
    rw [start_eq n hmatch] at hmeasure ⊢
    exact (Lockstep.Coherent.start c).run n hconfirm (.inl rfl) hmeasure

/-- Whatever the target does, a comparison of well-formed programs ends with none of the excluded
verdicts, if it counts so few steps that no measure wraps around.  At every check the witness has
one flag for every source frame, and both programs have allocated equally many blocks.  A row of
steps that the target skips is no longer than the measure of the source at its start. -/
theorem run_not_excluded {p q : Program} (hp : p.malformed? = none) (hq : q.malformed? = none)
    (bound maxSteps : Int) (env : Environment) :
    (∃ result, Simulation.run p q bound env maxSteps = .ok result ∧
      (((result.last.steps : Int) + 1) * (p.measureBound bound + 2) < 2 ^ 63 →
        result.verdict.excluded = false)) ∧
    (∀ k, Lockstep.Reached (.of p q bound env) k →
      k.witness.elided.length = k.source.depth ∧
        k.source.memory.regions.size = k.target.memory.regions.size) ∧
    ∀ n k k', Lockstep.SkippedRow (.of p q bound env) n k k' →
      ((k.steps : Int) + 1) * (p.measureBound bound + 2) < 2 ^ 63 →
      n ≤ (k.source.measure64 (p.measureBound bound)).toInt := by
  refine ⟨⟨_, run_eq_ok hp hq, fun hmeasure => start_not_excluded hmeasure⟩, fun k hk => ?_,
    fun n k k' hrow hmeasure => hrow.le_measure64 hmeasure⟩
  exact ⟨hk.coherent.fits.length, hk.coherent.fits.blocks⟩

/-- The setting in which a program is compared with its conversion. -/
def relaySetting : Setting :=
  .of .relay .relayConverted 5 (.constant (External.sums [("h", 2)]))

/-- The comparison of a program with its conversion after at most a number of steps. -/
def relayAfter (n : Nat) : Lockstep := ((Lockstep.start relaySetting).run relaySetting n).1

/-- The target skips the ninth and the tenth step. -/
theorem skippedRow_relay : Lockstep.SkippedRow relaySetting 2 (relayAfter 8) (relayAfter 10) := by
  have hstart : (Lockstep.start relaySetting).confirm relaySetting = .ok (.start relaySetting) := by
    decide +kernel
  have hninth : (relayAfter 8).advance relaySetting = .ok (relayAfter 9) := by decide +kernel
  have htenth : (relayAfter 9).advance relaySetting = .ok (relayAfter 10) := by decide +kernel
  obtain ⟨hreached, hconfirm⟩ :=
    Lockstep.Reached.start.of_truncated (n := 8) hstart (by decide +kernel)
  obtain ⟨hnext, hconfirm⟩ := Lockstep.Next.of_advance hconfirm hninth
  obtain ⟨hnext', _⟩ := Lockstep.Next.of_advance hconfirm htenth
  exact .cons (.single hreached (by decide +kernel) hnext) (by decide +kernel) hnext'

/-- A row of skipped steps in the comparison of a program with its conversion; where the two are
exchanged, they diverge, but not for an excluded reason. -/
theorem run_not_excluded_relay :
    2 ≤ ((relayAfter 8).source.measure64 (Program.relay.measureBound 5)).toInt ∧
    ∃ result, Simulation.run .relayConverted .relay 5 (.constant (External.sums [("h", 2)])) 20
        = .ok result ∧
      result.verdict.accepted = false ∧ result.verdict.excluded = false := by
  have hp : Program.relay.malformed? = none := by decide +kernel
  have hq : Program.relayConverted.malformed? = none := by decide +kernel
  obtain ⟨_, _, hrows⟩ := run_not_excluded hp hq 5 20 (.constant (External.sums [("h", 2)]))
  obtain ⟨⟨result, hrun, hexcluded⟩, _⟩ :=
    run_not_excluded hq hp 5 20 (.constant (External.sums [("h", 2)]))
  obtain rfl := Except.ok.inj (hrun.symm.trans (run_eq_ok hq hp))
  exact ⟨hrows 2 _ _ skippedRow_relay (by decide +kernel), _, hrun, by decide +kernel,
    hexcluded (by decide +kernel)⟩

end Simulation

end RegisterTransfer
