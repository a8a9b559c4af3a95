import RegisterTransfer.Proofs.DefinednessOrder
import RegisterTransfer.Proofs.LockstepConsistency
import RegisterTransfer.Proofs.Reachability
set_option autoImplicit false

/-!
# A program beside itself

In the comparison of a program with itself both stay in the same state, since the same external
functions answer both (`Lockstep.Mirrors`).  Every check asks for an order that is reflexive, so it
passes; no frame is ever marked as elided, so no step is skipped.  Such a comparison is therefore
accepted whatever the bound on epilogues is and whatever the external functions do
(`Simulation.run_self`).
-/

namespace RegisterTransfer

/-! ## Checks of a state against itself -/

theorem Event.mismatch?_self (e : Option Event) : Event.mismatch? e e = none := by
  rw [Event.mismatch?_eq_none_iff, List.forall₂_same]
  exact fun f _ => ⟨rfl, Val.listLessDefined_refl _, Val.lessDefined_refl _⟩

theorem Frame.Agrees.refl (fr : Frame) : fr.Agrees fr where
  name := rfl
  pc := rfl
  result := rfl
  sp := rfl
  regs := Registers.lessDefined_refl _

/-- A stack of which no frame is elided matches itself. -/
theorem StacksMatch.self {Elided : Frame → Prop} {stack : List Frame} {flags : List Bool}
    (hlength : flags.length = stack.length) (hflags : true ∉ flags) :
    StacksMatch Elided Frame.Agrees (stack.zip flags) stack := by
  induction stack generalizing flags with
  | nil => exact .nil
  | cons fr stack ih =>
    cases flags with
    | nil => cases hlength
    | cons flag flags =>
      rw [List.mem_cons, not_or] at hflags
      obtain ⟨hflag, hrest⟩ := hflags
      obtain rfl : flag = false := by simpa using hflag
      exact .kept (.refl fr) (ih (Nat.succ.inj hlength) hrest)

namespace Witness

variable {w w' : Witness} {s : State} {bound : Int}

theorem controlMismatch?_self (w : Witness) (bound : Int) (c : Control) :
    w.controlMismatch? bound c c = none := by
  cases c with
  | running f sp pc regs => simp [controlMismatch?, Registers.lessDefined_refl]
  | calling callee args => simp [controlMismatch?, Val.listLessDefined_refl]
  | returning v => simp [controlMismatch?]

/-- A state whose stack is sound matches itself under a witness that elides no frame. -/
theorem mismatch?_self (bound : Int) (hlength : w.elided.length = s.stack.length)
    (hkept : true ∉ w.elided) (hstack : s.stackError? = none) : w.mismatch? bound s s = none := by
  have hstacks : stackMismatch? bound s.stack.length 0 0 (s.stack.zip w.elided).reverse
      s.stack.reverse = none := by
    rw [stackMismatch?_eq_none_iff]
    exact ⟨(StacksMatch.self hlength hkept).reverse, by simp⟩
  exact mismatch?_eq_none_iff.mpr
    ⟨Memory.Extends.refl s.memory, hstack, hstack, hstacks, w.controlMismatch?_self bound s.control⟩

/-- No step is skipped from a state to itself. -/
theorem not_skips_self (s : State) (hkept : true ∉ w.elided) : ¬ w.skips s s := by
  unfold skips
  cases s.control with
  | running f sp pc regs => simp
  | calling callee args => simp
  | returning v =>
    cases helided : w.elided with
    | nil => simp
    | cons flag flags => simp_all

/-- A call that is made on both sides elides no frame. -/
theorem kept_of_afterPair? {before after : Nat} (hkept : true ∉ w.elided)
    (h : w.afterPair? before after before after = some w') : true ∉ w'.elided := by
  unfold afterPair? at h
  split at h
  · rename_i hlt
    cases h
    simp [hkept, Nat.ne_of_gt hlt]
  · split at h
    · split at h
      · rename_i helided
        cases h
        simp_all
      · cases h
    · cases h
      exact hkept

end Witness

/-! ## Comparisons -/

namespace Lockstep

variable {p : Program} {externals : Externals} {bound : Int} {k : Lockstep}

/-- A comparison of a program with itself, in the middle: both are in the same state, no frame is
elided, and no step was skipped. -/
structure Mirrors (p : Program) (externals : Externals) (k : Lockstep) : Prop where
  source : p.after externals k.steps = .ok (k.source, k.events.reverse)
  target : k.target = k.source
  kept : true ∉ k.witness.elided
  stutters : k.stutters = 0
  maxStutterRun : k.maxStutterRun = 0

theorem Mirrors.start (p : Program) (externals : Externals) (bound : Int) :
    (start (.of p p bound (.constant externals))).Mirrors p externals where
  source := rfl
  target := rfl
  kept := by simp [Lockstep.start, Witness.start]
  stutters := rfl
  maxStutterRun := rfl

/-- The check passes, as long as the numbers of blocks have not run out. -/
theorem Mirrors.confirm (h : k.Mirrors p externals)
    (hlength : k.witness.elided.length = k.source.stack.length)
    (hblocks : k.source.memory.regions.size < 2 ^ 32 - 1) (c : Simulation.Setting) :
    k.confirm c = .ok k := by
  have howned : k.source.Owned := (Program.Reaches.of_after h.source).owned hblocks
  refine confirm_eq_ok_iff.mpr ⟨rfl, hlength, ?_⟩
  rw [h.target]
  exact Witness.mismatch?_self c.bound hlength h.kept (howned.stackError? hblocks)

/-- The target takes the same step as the source, with the same answer. -/
theorem Mirrors.follow {s : State} {e : Option Event} (h : k.Mirrors p externals)
    (hconfirm : k.confirm (.of p p bound (.constant externals)) = .ok k)
    (hstep : k.source.step p externals = .ok (s, e)) :
    ∃ k', k.follow (.of p p bound (.constant externals)) s e = .ok k' ∧ k'.Mirrors p externals ∧
      k'.source = s ∧ k'.witness.elided.length = s.stack.length := by
  have hskips : ¬ k.witness.skips k.source k.source := Witness.not_skips_self _ h.kept
  have hagrees := agrees_of_confirm hconfirm
  rw [h.target] at hagrees
  obtain ⟨w, hw, hfits⟩ := hagrees.pair rfl hskips hstep hstep (Event.mismatch?_self e)
  let k' : Lockstep :=
    { k.moved s e with
      stutterRun := 0
      target := s
      history := e.toList ++ (k.moved s e).history
      witness := w }
  have hpair : (k.moved s e).pair (.of p p bound (.constant externals)) k.source.depth e
      = .ok k' := by
    refine pair_eq_ok_iff.mpr ⟨s, e, w, h.target ▸ hstep, Event.mismatch?_self e, ?_, rfl⟩
    simpa [moved, hskips, h.target] using hw
  have hafter : p.after externals (k.steps + 1) = .ok (s, k.events.reverse ++ e.toList) :=
    State.after_succ_eq_ok_iff.mpr ⟨_, _, e, h.source, hstep, rfl⟩
  refine ⟨k', ?_, ⟨?_, rfl, Witness.kept_of_afterPair? h.kept hw, h.stutters, h.maxStutterRun⟩,
    rfl, hfits.length⟩
  · rw [Lockstep.follow, if_neg (h.target ▸ hskips)]
    exact hpair
  · cases e <;> simpa [k', moved] using hafter

/-- A step of the source takes the comparison on, and the check after it passes. -/
theorem Mirrors.advance {s : State} {e : Option Event} (h : k.Mirrors p externals)
    (hconfirm : k.confirm (.of p p bound (.constant externals)) = .ok k)
    (hstep : k.source.step p externals = .ok (s, e))
    (hblocks : s.memory.regions.size < 2 ^ 32 - 1) :
    ∃ k', k.advance (.of p p bound (.constant externals)) = .ok k' ∧ k'.Mirrors p externals ∧
      k'.confirm (.of p p bound (.constant externals)) = .ok k' := by
  obtain ⟨k', hfollow, hmirrors, rfl, hlength⟩ := h.follow hconfirm hstep
  have hconfirm' := hmirrors.confirm hlength hblocks (.of p p bound (.constant externals))
  exact ⟨k', advance_eq_ok_iff.mpr
    ⟨_, e, hstep, hfollow, (confirm_eq_ok_iff.mp hconfirm').2⟩, hmirrors, hconfirm'⟩

/-- A comparison of a program with itself is accepted, and stays one to its end. -/
theorem Mirrors.run {N : Nat} (hblocks : p.BlocksInRange externals N) (n : Nat)
    (h : k.Mirrors p externals)
    (hconfirm : k.confirm (.of p p bound (.constant externals)) = .ok k)
    (hN : (k.run (.of p p bound (.constant externals)) n).1.steps ≤ N) :
    (k.run (.of p p bound (.constant externals)) n).2.accepted ∧
      (k.run (.of p p bound (.constant externals)) n).1.Mirrors p externals := by
  -- The check is part of the invariant: it is what says that the witness fits the stack.
  refine (run_accepted
    (fun k => k.Mirrors p externals ∧ k.confirm (.of p p bound (.constant externals)) = .ok k)
    (fun k v h hfinal => ?_) (fun k s e h hstep hlt => ?_) n ⟨h, hconfirm⟩ hN).imp_right And.left
  · exact ⟨v, h.1.target ▸ hfinal⟩
  · obtain ⟨h, hconfirm⟩ := h
    have hafter : p.after externals (k.steps + 1) = .ok (s, k.events.reverse ++ e.toList) :=
      State.after_succ_eq_ok_iff.mpr ⟨_, _, e, h.source, hstep, rfl⟩
    exact h.advance hconfirm hstep (hblocks _ s _ hlt hafter)

/-- The verdict is that both returned exactly where the last state is final. -/
theorem Mirrors.returned_iff {c : Simulation.Setting} {verdict : Verdict} {v w : Val}
    (h : k.Mirrors p externals) (hconcludes : Concludes c externals k verdict) :
    verdict = .returned v w ↔ k.source.final? = some v ∧ w = v := by
  cases verdict with
  | returned v' w' =>
    obtain ⟨hs, ht, _⟩ := hconcludes
    obtain rfl : v' = w' := Option.some.inj (hs.symm.trans (h.target ▸ ht))
    simp only [Verdict.returned.injEq, hs, Option.some.injEq]
    exact and_congr_right fun hv => hv ▸ eq_comm
  | sourceStuck => simp [hconcludes.1]
  | truncated => simp [show k.source.final? = none from hconcludes]
  | diverged reason => exact hconcludes.elim
  | inconsistent => exact hconcludes.elim

end Lockstep

namespace Simulation

variable {p : Program}

/-- The comparison of a well-formed program with itself is accepted, under any bound, for any number of
steps and with any external functions whose answers depend on their arguments alone, as long as the
numbers of blocks do not run out.  No step is skipped, the steps are those of the program, and the
comparison returns where the program does, with its value on both sides. -/
theorem run_self (hp : p.malformed? = none) (bound maxSteps : Int) (externals : Externals) :
    ∃ result, Simulation.run p p bound (.constant externals) maxSteps = .ok result ∧
      (p.BlocksInRange externals result.last.steps →
        result.verdict.accepted ∧ result.last.stutters = 0 ∧ result.last.maxStutterRun = 0 ∧
          p.after externals result.last.steps = .ok (result.last.source, result.events) ∧
          ∀ v w, result.verdict = .returned v w ↔
            result.last.source.final? = some v ∧ w = v) := by
  refine ⟨_, run_eq_ok hp hp, fun hblocks => ?_⟩
  have hstart := Lockstep.Mirrors.start p externals bound
  have hconfirm := hstart.confirm rfl (show 0 < 2 ^ 32 - 1 by decide)
    (.of p p bound (.constant externals))
  have hmatch := (Lockstep.confirm_eq_ok_iff.mp hconfirm).2.2
  rw [start_eq _ hmatch] at hblocks ⊢
  obtain ⟨haccepted, hmirrors⟩ := hstart.run hblocks _ hconfirm (Nat.le_refl _)
  obtain ⟨_, hconcludes⟩ := (Lockstep.Tracks.start _ externals).run rfl _ hmatch haccepted
  exact ⟨haccepted, hmirrors.stutters, hmirrors.maxStutterRun, hmirrors.source,
    fun _ _ => hmirrors.returned_iff hconcludes⟩

/-- The external function `h` that tells an undefined argument from all others. -/
def inquisitive : Externals := fun name =>
  if name = "h" then some fun args => .int (if args = [.undefined] then 1 else 0) else none

/-- A comparison of sixteen steps with an external function that is not monotone, and with a
negative bound. -/
theorem run_self_relay :
    ¬ inquisitive.Monotone ∧
    ∃ result, Simulation.run .relay .relay (-1) (.constant inquisitive) 20 = .ok result ∧
      result.last.steps = 16 ∧ result.last.stutters = 0 ∧
      result.verdict = .returned (.int 0) (.int 0) := by
  have hp : Program.relay.malformed? = none := by decide +kernel
  obtain ⟨result, hrun, haccepted⟩ := run_self hp (-1) 20 inquisitive
  obtain rfl := Except.ok.inj (hrun.symm.trans (run_eq_ok hp hp))
  have hsteps : (start (.of .relay .relay (-1) (.constant inquisitive))
      (stepLimit 20)).last.steps = 16 := by decide +kernel
  rw [hsteps] at haccepted
  obtain ⟨_, hstutters, _, _, hreturned⟩ := haccepted (.of_lt (by decide))
  refine ⟨fun hmonotone => ?_, _, hrun, hsteps, hstutters,
    (hreturned _ _).mpr ⟨by decide +kernel, rfl⟩⟩
  have hanswers := hmonotone "h" _ rfl [.undefined] [.int 5] (by decide)
  exact absurd hanswers (by decide)

end Simulation

end RegisterTransfer
