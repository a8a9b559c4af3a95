import RegisterTransfer.Proofs.Correspondence
import RegisterTransfer.Proofs.StepMonotonicity
import RegisterTransfer.Simulation.Lockstep
set_option autoImplicit false

/-!
# A step of a program against its conversion

From related states, a step of the source either is one that the target skips, and then the source
comes closer to the state of the target (`Related.skip`), or is matched by one step of the target,
with events in order (`Related.pair`).  Both lead to related states.  `Witness.lag` counts the source
steps that the target may still skip: every frame that it elides adds one for the return into the
frame and those of an epilogue.
-/

namespace RegisterTransfer

/-! ## How far the source is behind -/

namespace Witness

/-- The number of source steps that the target may skip before its next step. -/
def lag (bound : Int) (w : Witness) (s t : State) : Int :=
  w.elided.count true * (bound + 1) +
    match s.control, t.control with
    | .running f _ pc _, .returning _ => f.code.measure pc bound + 1
    | _, _ => 0

theorem lag_nonneg {bound : Int} (hbound : 0 ≤ bound) (w : Witness) (s t : State) :
    0 ≤ w.lag bound s t := by
  have hcount : 0 ≤ (w.elided.count true : Int) * (bound + 1) :=
    Int.mul_nonneg (Int.natCast_nonneg _) (by omega)
  unfold lag
  split <;> omega

/-- Where both are about to do the same, only the elided frames are left to be skipped. -/
theorem lag_of_kind_eq {bound : Int} {w : Witness} {s t : State}
    (h : s.control.kind = t.control.kind) :
    w.lag bound s t = w.elided.count true * (bound + 1) := by
  unfold lag
  split
  · rename_i hs ht
    rw [hs, ht] at h
    cases h
  · omega

theorem count_afterPair? {w w' : Witness} {a b c d : Nat} (h : w.afterPair? a b c d = some w') :
    w'.elided.count true ≤ w.elided.count true + 1 := by
  unfold afterPair? at h
  split at h
  · cases h
    simp only [List.count_cons]
    split <;> omega
  · split at h
    · split at h
      · rename_i x rest helided
        cases h
        rw [helided]
        simp only [List.count_cons]
        omega
      · cases h
    · cases h
      omega

/-- A step of both programs adds at most one elided frame to what is left to be skipped. -/
theorem lag_le_of_afterPair? {bound : Int} (hbound : 0 ≤ bound) {w w' : Witness}
    {s t s' t' : State} {a b c d : Nat} (h : w.afterPair? a b c d = some w')
    (hkind : s'.control.kind = t'.control.kind) :
    w'.lag bound s' t' ≤ w.lag bound s t + (bound + 1) := by
  have hcount : (w'.elided.count true : Int) * (bound + 1)
      ≤ (w.elided.count true + 1) * (bound + 1) :=
    Int.mul_le_mul_of_nonneg_right (by exact_mod_cast count_afterPair? h) (by omega)
  have hlag : (w.elided.count true : Int) * (bound + 1) ≤ w.lag bound s t := by
    unfold lag
    split <;> omega
  rw [lag_of_kind_eq hkind]
  rw [Int.add_mul] at hcount
  omega

end Witness

/-! ## Steps that the target skips -/

namespace Related

variable {p : Program} {rule : Rule} {externals : Externals} {w : Witness} {s s' t : State}
variable {e : Option Event} {stack stack' : List Frame} {m m' : Memory} {f : Function}
variable {sp : Block} {pc : Point} {regs : Registers} {v v' : Val}

/-- The source takes a step of an epilogue that the target has skipped. -/
theorem skip_epilogue
    (h : Related p rule w ⟨stack, m, .running f sp pc regs⟩ ⟨stack', m', .returning v⟩)
    (hstep : State.step p externals ⟨stack, m, .running f sp pc regs⟩ = .ok (s', e)) :
    e = none ∧
      Corresponds p rule (w.afterSkip ⟨stack, m, .running f sp pc regs⟩) s'
        ⟨stack', m', .returning v⟩ ∧
      s'.measure (p.measureBound rule.bound)
        < State.measure ⟨stack, m, .running f sp pc regs⟩ (p.measureBound rule.bound) ∧
      (w.afterSkip ⟨stack, m, .running f sp pc regs⟩).lag (p.measureBound rule.bound) s'
          ⟨stack', m', .returning v⟩
        < w.lag (p.measureBound rule.bound) ⟨stack, m, .running f sp pc regs⟩
            ⟨stack', m', .returning v⟩ := by
  cases h.control with
  | epilogue hstack hreturn hvalue =>
    obtain ⟨rfl, i, hi, hexecute⟩ := step_running_iff.mp hstep
    refine ⟨rfl, ?_⟩
    rcases Code.isReturn_cases hreturn with ⟨value, hat, hret⟩ | ⟨succ, hat, hnext, hmeasure⟩ |
        ⟨dest, succ, hat, hnext, hmeasure⟩ <;> cases hi.symm.trans hat
    · -- The return: the source frees a block that the target has freed with the tail call.
      obtain ⟨m'', hfree, rfl⟩ := Instr.execute_ret_iff.mp hexecute
      have hw : w.afterSkip ⟨stack, m, .running f sp pc regs⟩ = w := by
        simp [Witness.afterSkip, hat]
      have hreturned : ((value.map regs.get).getD .undefined).lessDefined v := by
        rcases hret with rfl | rfl
        · rfl
        · exact hvalue
      rw [hw]
      refine ⟨⟨h.memory.free_left hfree (h.not_live_of_epilogue rfl rfl), h.length, h.frames,
        .returning hreturned⟩, ?_, ?_⟩
      · simp only [State.measure, State.depth]
        omega
      · simp only [Witness.lag]
        omega
    · cases hexecute
      have hw : w.afterSkip ⟨stack, m, .running f sp pc regs⟩ = w := by
        simp [Witness.afterSkip, hat]
      rw [hw]
      refine ⟨⟨h.memory, h.length, h.frames, .epilogue hstack hnext hvalue⟩, ?_, ?_⟩
      · simp only [State.measure, State.depth]
        omega
      · simp only [Witness.lag]
        omega
    · -- A move: from now on its destination holds the value.
      cases hexecute
      have hw : w.afterSkip ⟨stack, m, .running f sp pc regs⟩ = { w with expect := dest } := by
        simp [Witness.afterSkip, hat]
      rw [hw]
      refine ⟨⟨h.memory, h.length, h.frames, .epilogue hstack hnext ?_⟩, ?_, ?_⟩
      · simpa using hvalue
      · simp only [State.measure, State.depth]
        omega
      · simp only [Witness.lag]
        omega

/-- The source returns into a frame that the target never pushed. -/
theorem skip_return (h : Related p rule w ⟨stack, m, .returning v⟩ ⟨stack', m', .returning v'⟩)
    (hskips : w.skips ⟨stack, m, .returning v⟩ ⟨stack', m', .returning v'⟩)
    (hstep : State.step p externals ⟨stack, m, .returning v⟩ = .ok (s', e)) :
    e = none ∧
      Corresponds p rule (w.afterSkip ⟨stack, m, .returning v⟩) s' ⟨stack', m', .returning v'⟩ ∧
      s'.measure (p.measureBound rule.bound)
        < State.measure ⟨stack, m, .returning v⟩ (p.measureBound rule.bound) ∧
      (w.afterSkip ⟨stack, m, .returning v⟩).lag (p.measureBound rule.bound) s'
          ⟨stack', m', .returning v'⟩
        < w.lag (p.measureBound rule.bound) ⟨stack, m, .returning v⟩
            ⟨stack', m', .returning v'⟩ := by
  obtain ⟨elided, expect⟩ := w
  cases stack with
  | nil => cases hskips
  | cons fr stack =>
    obtain _ | ⟨_ | _, elided⟩ := elided
    · cases hskips
    · cases hskips
    · cases hstep
      refine ⟨rfl, ?_⟩
      cases h.control with
      | returning hvalue =>
        cases h.frames with
        | elided hreturns hrest =>
          have hmeasure := Code.measure_lt_of_isReturn hreturns.2
          have hget : ((fr.regs.set fr.result v).get fr.result).lessDefined v' := by
            simpa using hvalue
          refine ⟨⟨h.memory, Nat.succ.inj h.length, hrest,
            .epilogue hreturns.1 hreturns.2 hget⟩, ?_, ?_⟩
          · simp only [State.measure, State.depth, List.length_cons, Int.natCast_succ,
              Int.add_mul]
            omega
          · simp only [Witness.afterSkip, Witness.lag, List.tail_cons, List.count_cons_self,
              Int.natCast_succ, Int.add_mul]
            omega

/-- A source step that the target skips has no event and leads to a state that is still related.
Both the measure of the source and the number of steps left to be skipped decrease. -/
theorem skip (h : Related p rule w s t) (hskips : w.skips s t)
    (hstep : s.step p externals = .ok (s', e)) (hblocks : s'.memory.regions.size < 2 ^ 32 - 1) :
    e = none ∧ Related p rule (w.afterSkip s) s' t ∧
      s'.measure (p.measureBound rule.bound) < s.measure (p.measureBound rule.bound) ∧
      (w.afterSkip s).lag (p.measureBound rule.bound) s' t
        < w.lag (p.measureBound rule.bound) s t := by
  have hsource := h.source.step hstep hblocks
  obtain ⟨stack, m, control⟩ := s
  obtain ⟨stack', m', control'⟩ := t
  cases h.control with
  | running => cases hskips
  | calling => cases hskips
  | epilogue =>
    obtain ⟨he, hcorresponds, hmeasure, hlag⟩ := h.skip_epilogue hstep
    exact ⟨he, ⟨hcorresponds, hsource, h.target⟩, hmeasure, hlag⟩
  | returning =>
    obtain ⟨he, hcorresponds, hmeasure, hlag⟩ := h.skip_return hskips hstep
    exact ⟨he, ⟨hcorresponds, hsource, h.target⟩, hmeasure, hlag⟩

end Related

/-! ## Steps of both -/

/-- The states after a step of both programs correspond, by the witness that follows from the
depths of the stacks, and both are about to do the same. -/
def Paired (p : Program) (rule : Rule) (w : Witness) (s t s' t' : State) : Prop :=
  s'.control.kind = t'.control.kind ∧
    ∃ w', w.afterPair? s.depth s'.depth t.depth t'.depth = some w' ∧ Corresponds p rule w' s' t'

namespace Paired

variable {p : Program} {rule : Rule} {w : Witness} {s t s' t' : State}

/-- A step within a function, or out of one that leaves no frame. -/
theorem level (hdepth : s'.stack.length = s.stack.length) (hkind : s'.control.kind = t'.control.kind)
    (h : Corresponds p rule w s' t') : Paired p rule w s t s' t' :=
  ⟨hkind, w, by simp [Witness.afterPair?, State.depth, hdepth], h⟩

/-- A call that both programs make. -/
theorem push {fr fr' : Frame} (hs : s'.stack = fr :: s.stack) (ht : t'.stack = fr' :: t.stack)
    (hkind : s'.control.kind = t'.control.kind)
    (h : Corresponds p rule { w with elided := false :: w.elided } s' t') :
    Paired p rule w s t s' t' :=
  ⟨hkind, _, by simp [Witness.afterPair?, State.depth, hs, ht], h⟩

/-- A call that the target makes as a tail call. -/
theorem elide {fr : Frame} (hs : s'.stack = fr :: s.stack) (ht : t'.stack = t.stack)
    (hkind : s'.control.kind = t'.control.kind)
    (h : Corresponds p rule { w with elided := true :: w.elided } s' t') :
    Paired p rule w s t s' t' :=
  ⟨hkind, _, by simp [Witness.afterPair?, State.depth, hs, ht], h⟩

/-- A return into a frame that both programs have. -/
theorem pop {fr : Frame} {b : Bool} {elided : List Bool} (hs : s.stack = fr :: s'.stack)
    (hw : w.elided = b :: elided) (hkind : s'.control.kind = t'.control.kind)
    (h : Corresponds p rule { w with elided } s' t') : Paired p rule w s t s' t' := by
  refine ⟨hkind, _, ?_, h⟩
  simp only [Witness.afterPair?, State.depth, hs, hw, List.length_cons]
  rw [if_neg (by omega), if_pos (by omega)]

end Paired

namespace Related

variable {p : Program} {rule : Rule} {externals : Externals} {w : Witness} {s s' t : State}
variable {e : Option Event} {stack stack' : List Frame} {m m' : Memory} {f : Function}
variable {sp : Block} {pc : Point} {regs regs' : Registers} {i : Instr}

/-- The target executes a converted instruction against an instruction of the source. -/
theorem execute
    (h : Related p rule w ⟨stack, m, .running f sp pc regs⟩
      ⟨stack', m', .running (f.transform rule) sp pc regs'⟩)
    (hdefined : f ∈ p.definitions) (hregs : regs.lessDefined regs') (hi : f.code.at? pc = some i)
    (hexecute : i.execute p stack m f sp regs = .ok s')
    (hrange : State.AccessInRange ⟨stack, m, .running f sp pc regs⟩) :
    ∃ t', (f.convert rule i).execute (p.mapTransform rule) stack' m' (f.transform rule) sp regs'
        = .ok t' ∧
      Paired p rule w ⟨stack, m, .running f sp pc regs⟩
        ⟨stack', m', .running (f.transform rule) sp pc regs'⟩ s' t' := by
  have hown : m'.live sp := h.target.live_of_mem (f := f.transform rule) List.mem_cons_self
  rcases f.convert_cases rule i with heq | ⟨sig, callee, args, dest, succ, rfl, heq, hstack, hreturn⟩
  · rw [heq]
    obtain ⟨t', hexecute', hcounterparts⟩ := Instr.execute_lessDefined
      (g := f.transform rule) stack' h.memory hregs hown
      (fun callee sig name => Callee.resolve_mapTransform rule hregs) hi hrange hexecute
    refine ⟨t', hexecute', ?_⟩
    cases hcounterparts with
    | stays hmemory hregs =>
      exact .level rfl rfl ⟨hmemory, h.length, h.frames, .running hdefined hregs⟩
    | calls hmemory hregs hargs =>
      refine .push rfl rfl rfl ⟨hmemory, congrArg Nat.succ h.length, ?_, .calling hargs⟩
      exact .kept ⟨hdefined, rfl, rfl, rfl, rfl, hregs⟩ h.frames
    | leaves hmemory hargs =>
      exact .level rfl rfl ⟨hmemory, h.length, h.frames, .calling hargs⟩
    | returns hmemory hvalue =>
      exact .level rfl rfl ⟨hmemory, h.length, h.frames, .returning hvalue⟩
  · -- The call becomes a tail call: the target frees the block, which has no room, and the source
    -- keeps a frame that does nothing but return.
    rw [heq]
    obtain ⟨name, hresolve, rfl⟩ := Instr.execute_call_iff.mp hexecute
    have hresolve' := Callee.resolve_mapTransform rule hregs hresolve
    obtain ⟨cells, hr⟩ := h.source.region f sp List.mem_cons_self
    rw [hstack] at hr
    obtain ⟨n', hfree', hmemory⟩ := h.memory.free_right hr hown
    refine ⟨_, Instr.execute_tailcall_iff.mpr ⟨name, hresolve', n', hfree', rfl⟩,
      .elide rfl rfl rfl ?_⟩
    refine ⟨hmemory, congrArg Nat.succ h.length, ?_,
      .calling (Registers.lessDefined_list hregs args)⟩
    exact .elided ⟨hstack, by rwa [Program.isReturn_measureBound hdefined]⟩ h.frames

/-- Both programs enter the function that they call, or call the same external function. -/
theorem call {callee : String} {args args' : List Val} (hmonotone : externals.Monotone)
    (h : Related p rule w ⟨stack, m, .calling callee args⟩ ⟨stack', m', .calling callee args'⟩)
    (hargs : Val.listLessDefined args args')
    (hstep : State.call p externals stack m callee args = .ok (s', e)) :
    ∃ t' e', State.call (p.mapTransform rule) externals stack' m' callee args' = .ok (t', e') ∧
      List.Forall₂ Event.LessDefined e.toList e'.toList ∧
      Paired p rule w ⟨stack, m, .calling callee args⟩ ⟨stack', m', .calling callee args'⟩ s' t' := by
  rcases call_eq_ok_iff.mp hstep with ⟨f, hget, rfl, rfl⟩ | ⟨hget, external, hexternal, rfl, rfl⟩
  · have hget' : (p.mapTransform rule).functions.get? callee = some (some (f.transform rule)) := by
      rw [Program.get?_mapTransform, hget]
      rfl
    have hdefined : f ∈ p.definitions :=
      Program.mem_definitions_iff.mpr ⟨callee, by simp [Program.function?, hget]⟩
    obtain ⟨hmemory, hblock⟩ := h.memory.alloc 0 f.stackSize
    refine ⟨_, none, call_eq_ok_iff.mpr (.inl ⟨_, hget', rfl, rfl⟩), .nil, .level rfl rfl ?_⟩
    refine ⟨hmemory, h.length, h.frames, ?_⟩
    simp only [State.enter]
    rw [hblock]
    exact .running hdefined (Registers.lessDefined_ofParams f.params hargs)
  · have hget' : (p.mapTransform rule).functions.get? callee = none := by
      rw [Program.get?_mapTransform, hget]
      rfl
    have hresult := hmonotone callee external hexternal args args' hargs
    refine ⟨_, _, call_eq_ok_iff.mpr (.inr ⟨hget', external, hexternal, rfl, rfl⟩),
      .cons ⟨rfl, hargs, hresult⟩ .nil, .level rfl rfl ?_⟩
    exact ⟨h.memory, h.length, h.frames, .returning hresult⟩

/-- Both programs return into frames that stand for each other. -/
theorem resume {v v' : Val}
    (h : Related p rule w ⟨stack, m, .returning v⟩ ⟨stack', m', .returning v'⟩)
    (hskips : ¬ w.skips ⟨stack, m, .returning v⟩ ⟨stack', m', .returning v'⟩)
    (hvalue : v.lessDefined v')
    (hstep : State.step p externals ⟨stack, m, .returning v⟩ = .ok (s', e)) :
    e = none ∧ ∃ t', State.step (p.mapTransform rule) externals ⟨stack', m', .returning v'⟩
        = .ok (t', none) ∧
      Paired p rule w ⟨stack, m, .returning v⟩ ⟨stack', m', .returning v'⟩ s' t' := by
  obtain ⟨elided, expect⟩ := w
  cases stack with
  | nil => cases hstep
  | cons fr stack =>
    obtain _ | ⟨_ | _, elided⟩ := elided
    · cases h.length
    · cases hstep
      refine ⟨rfl, ?_⟩
      cases h.frames with
      | @kept _ fr' _ _ hconverted hrest =>
        refine ⟨_, rfl, .pop rfl rfl rfl ⟨h.memory, Nat.succ.inj h.length, hrest, ?_⟩⟩
        rw [hconverted.function, hconverted.sp, hconverted.pc, hconverted.result]
        exact .running hconverted.defined (Registers.lessDefined_set _ hconverted.regs hvalue)
    · exact absurd rfl hskips

/-- A source step that the target does not skip is matched by a target step, and the events of both
are in order. -/
theorem pair (hmonotone : externals.Monotone) (h : Related p rule w s t) (hskips : ¬ w.skips s t)
    (hstep : s.step p externals = .ok (s', e)) (hrange : s.AccessInRange)
    (hblocks : s'.memory.regions.size < 2 ^ 32 - 1) :
    ∃ t' e' w', t.step (p.mapTransform rule) externals = .ok (t', e') ∧
      List.Forall₂ Event.LessDefined e.toList e'.toList ∧
      w.afterPair? s.depth s'.depth t.depth t'.depth = some w' ∧ Related p rule w' s' t' ∧
      s'.control.kind = t'.control.kind := by
  have hmatched : ∃ t' e', t.step (p.mapTransform rule) externals = .ok (t', e') ∧
      List.Forall₂ Event.LessDefined e.toList e'.toList ∧ Paired p rule w s t s' t' := by
    obtain ⟨stack, m, control⟩ := s
    obtain ⟨stack', m', control'⟩ := t
    cases h.control with
    | running hdefined hregs =>
      obtain ⟨rfl, i, hi, hexecute⟩ := step_running_iff.mp hstep
      obtain ⟨t', hexecute', hpaired⟩ := h.execute hdefined hregs hi hexecute hrange
      refine ⟨t', none, step_running_iff.mpr ⟨rfl, _, ?_, hexecute'⟩, .nil, hpaired⟩
      rw [Function.at?_transform, hi]
      rfl
    | epilogue => exact absurd rfl hskips
    | calling hargs => exact h.call hmonotone hargs hstep
    | returning hvalue =>
      obtain ⟨rfl, t', hstep', hpaired⟩ := h.resume hskips hvalue hstep
      exact ⟨t', none, hstep', .nil, hpaired⟩
  obtain ⟨t', e', hstep', hevents, hkind, w', hw', hcorresponds⟩ := hmatched
  have hblocks' : t'.memory.regions.size < 2 ^ 32 - 1 := hcorresponds.memory.size_eq ▸ hblocks
  exact ⟨t', e', w', hstep', hevents, hw',
    ⟨hcorresponds, h.source.step hstep hblocks, h.target.step hstep' hblocks'⟩, hkind⟩

end Related

end RegisterTransfer
