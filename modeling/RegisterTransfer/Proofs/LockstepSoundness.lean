import RegisterTransfer.Proofs.Correspondence
import RegisterTransfer.Simulation.Lockstep
set_option autoImplicit false

/-!
# What a comparison shows

Nothing is known about the target of a comparison but that it has passed the checks.  After every
step the source has taken as many steps as were counted, the target as many less those that it
skipped, and the external calls of both are in order (`Lockstep.Tracks`).  What an accepting
comparison says of its programs is therefore true of their runs (`Simulation.run_sound`).
-/

namespace RegisterTransfer

/-- Whether a comparison ends without a divergence. -/
def Verdict.accepted : Verdict → Bool
  | .returned .. | .sourceStuck | .truncated => true
  | .diverged _ | .inconsistent => false

namespace Lockstep

variable {c : Simulation.Setting} {k k' : Lockstep} {v : Verdict} {e : Option Event}
variable {externals : Externals}

/-! ## What a step of a comparison does -/

theorem confirm_eq_ok_iff :
    k.confirm c = .ok k' ↔ k' = k ∧ k.witness.elided.length = k.source.stack.length ∧
      k.witness.mismatch? c.bound k.source k.target = none := by
  unfold confirm
  split
  · simp_all
  · cases k.witness.mismatch? c.bound k.source k.target <;> simp_all [eq_comm]

theorem confirm_eq_error (h : k.confirm c = .error (k', v)) :
    v.accepted = false ∧ k'.steps = k.steps := by
  unfold confirm at h
  split at h
  · cases h
    exact ⟨rfl, rfl⟩
  · split at h
    · cases h
      exact ⟨rfl, rfl⟩
    · cases h

/-- A skipped step has no event, decreases the measure, and comes within the measure at the start
of its row. -/
theorem skip_eq_ok_iff {before : Int64} :
    k.skip c before e = .ok k' ↔
      e = none ∧ k.source.measure64 c.bound < before ∧
        ((k.stutterRun + 1 : Nat) : Int) ≤ (if k.stutterRun = 0 then before else k.runStart).toInt ∧
        k' = { k with
          runStart := if k.stutterRun = 0 then before else k.runStart
          stutterRun := k.stutterRun + 1
          stutters := k.stutters + 1
          maxStutterRun := max k.maxStutterRun (k.stutterRun + 1) } := by
  cases e with
  | some e => simp [skip]
  | none =>
    simp only [skip, true_and]
    generalize (if k.stutterRun = 0 then before else k.runStart) = start
    split
    · rename_i hmeasure
      simp [Int64.not_lt.mpr hmeasure]
    · rename_i hmeasure
      split
      · rename_i hrun
        simp only [reduceCtorEq, Int.not_le.mpr hrun, false_and, and_false]
      · rename_i hrun
        rw [Except.ok.injEq]
        exact ⟨fun h => ⟨Int64.not_le.mp hmeasure, Int.not_lt.mp hrun, h.symm⟩,
          fun ⟨_, _, h⟩ => h.symm⟩

theorem skip_eq_error {before : Int64} (h : k.skip c before e = .error (k', v)) :
    v.accepted = false ∧ k'.steps = k.steps := by
  cases e with
  | some e =>
    cases h
    exact ⟨rfl, rfl⟩
  | none =>
    simp only [skip] at h
    generalize (if k.stutterRun = 0 then before else k.runStart) = start at h
    split at h
    · cases h
      exact ⟨rfl, rfl⟩
    · split at h
      · cases h
        exact ⟨rfl, rfl⟩
      · cases h

/-- A matched step is a step of the target with a matching event. -/
theorem pair_eq_ok_iff {depth : Nat} :
    k.pair c depth e = .ok k' ↔
      ∃ t e' w, k.target.step c.target (c.env k.history) = .ok (t, e') ∧
        Event.mismatch? e e' = none ∧
        k.witness.afterPair? depth k.source.depth k.target.depth t.depth = some w ∧
        k' = { k with
          stutterRun := 0
          target := t
          history := e'.toList ++ k.history
          witness := w } := by
  simp only [pair]
  cases hstep : k.target.step c.target (c.env k.history) with
  | error reason => simp
  | ok r =>
    obtain ⟨t, e'⟩ := r
    cases hevent : Event.mismatch? e e' with
    | some r => simp [hevent]
    | none =>
      cases hw : k.witness.afterPair? depth k.source.depth k.target.depth t.depth with
      | none => simp [hevent, hw]
      | some w => simp [hevent, hw, eq_comm]

theorem pair_eq_error {depth : Nat} (h : k.pair c depth e = .error (k', v)) :
    v.accepted = false ∧ k'.steps = k.steps := by
  simp only [pair] at h
  split at h
  · cases h
    exact ⟨rfl, rfl⟩
  · split at h
    · cases h
      exact ⟨rfl, rfl⟩
    · split at h
      · cases h
      · cases h
        exact ⟨rfl, rfl⟩

/-- A step of a comparison is a step of the source that the target follows, after which the states
match. -/
theorem advance_eq_ok_iff :
    k.advance c = .ok k' ↔
      ∃ s e, k.source.step c.source (c.env k.history) = .ok (s, e) ∧ k.follow c s e = .ok k' ∧
        k'.witness.elided.length = k'.source.stack.length ∧
        k'.witness.mismatch? c.bound k'.source k'.target = none := by
  unfold advance
  cases hstep : k.source.step c.source (c.env k.history) with
  | error reason => simp
  | ok r =>
    obtain ⟨s, e⟩ := r
    simp only [bind_eq_ok_iff, confirm_eq_ok_iff, Except.ok.injEq, Prod.mk.injEq]
    constructor
    · rintro ⟨_, hfollow, rfl, hmatch⟩
      exact ⟨s, e, ⟨rfl, rfl⟩, hfollow, hmatch⟩
    · rintro ⟨_, _, ⟨rfl, rfl⟩, hfollow, hmatch⟩
      exact ⟨k', hfollow, rfl, hmatch⟩

theorem follow_eq_error {s : State} (h : k.follow c s e = .error (k', v)) :
    v.accepted = false ∧ k'.steps = k.steps + 1 := by
  unfold follow at h
  split at h
  · exact skip_eq_error h
  · exact pair_eq_error h

theorem follow_eq_ok {s : State} (h : k.follow c s e = .ok k') :
    k'.source = s ∧ k'.steps = k.steps + 1 ∧ k'.events = e.toList ++ k.events := by
  unfold follow at h
  split at h
  · obtain ⟨_, _, _, rfl⟩ := skip_eq_ok_iff.mp h
    exact ⟨rfl, rfl, rfl⟩
  · obtain ⟨_, _, _, _, _, _, rfl⟩ := pair_eq_ok_iff.mp h
    exact ⟨rfl, rfl, rfl⟩

/-- A comparison ends in a step because the source is stuck, or with a divergence after the step. -/
theorem advance_eq_error (h : k.advance c = .error (k', v)) :
    (v = .sourceStuck ∧ k' = k ∧
      ∃ reason, k.source.step c.source (c.env k.history) = .error reason) ∨
    (v.accepted = false ∧ k'.steps = k.steps + 1) := by
  unfold advance at h
  split at h
  · rename_i reason hstep
    cases h
    exact .inl ⟨rfl, rfl, reason, hstep⟩
  · rename_i s e hstep
    refine .inr ?_
    cases hfollow : k.follow c s e with
    | error r =>
      rw [hfollow] at h
      cases h
      exact follow_eq_error hfollow
    | ok k'' =>
      rw [hfollow] at h
      obtain ⟨hv, hsteps⟩ := confirm_eq_error h
      exact ⟨hv, hsteps.trans (follow_eq_ok hfollow).2.1⟩

/-! ## Both programs along a comparison -/

/-- The source has taken the steps that were counted and made the calls that were listed; the target
has taken as many steps, less those that it skipped, and made the same calls with arguments and
results that are at least as defined. -/
structure Tracks (c : Simulation.Setting) (externals : Externals) (k : Lockstep) : Prop where
  source : c.source.after externals k.steps = .ok (k.source, k.events.reverse)
  stutters_le : k.stutters ≤ k.steps
  target : ∃ es, c.target.after externals (k.steps - k.stutters) = .ok (k.target, es) ∧
    List.Forall₂ Event.LessDefined k.events.reverse es

theorem Tracks.start (c : Simulation.Setting) (externals : Externals) :
    Tracks c externals (start c) :=
  ⟨rfl, Nat.le_refl 0, [], rfl, .nil⟩

theorem Tracks.follow {s : State} (henv : c.env = .constant externals) (h : Tracks c externals k)
    (hstep : k.source.step c.source externals = .ok (s, e)) (hfollow : k.follow c s e = .ok k') :
    Tracks c externals k' := by
  have hsource : c.source.after externals (k.steps + 1) = .ok (s, k.events.reverse ++ e.toList) :=
    State.after_succ_eq_ok_iff.mpr ⟨_, _, e, h.source, hstep, rfl⟩
  have hle := h.stutters_le
  obtain ⟨es, htarget, hevents⟩ := h.target
  unfold Lockstep.follow at hfollow
  split at hfollow
  · -- The target stays where it is, and the step counts among the skipped ones.
    obtain ⟨rfl, _, _, rfl⟩ := skip_eq_ok_iff.mp hfollow
    exact ⟨by simpa [moved] using hsource, Nat.succ_le_succ hle, es, by simpa [moved] using htarget,
      by simpa [moved] using hevents⟩
  · obtain ⟨t, e', w, hstep', hevent, _, rfl⟩ := pair_eq_ok_iff.mp hfollow
    rw [henv] at hstep'
    refine ⟨?_, Nat.le_succ_of_le hle, es ++ e'.toList, ?_, ?_⟩
    · cases e <;> simpa [moved] using hsource
    · change c.target.after externals (k.steps + 1 - k.stutters) = .ok (t, es ++ e'.toList)
      rw [Nat.succ_sub hle]
      exact State.after_succ_eq_ok_iff.mpr ⟨k.target, es, e', htarget, hstep', rfl⟩
    · have hboth := List.rel_append hevents (Event.mismatch?_eq_none_iff.mp hevent)
      cases e <;> simpa [moved] using hboth

/-- What an accepting verdict says of the last states. -/
def Concludes (c : Simulation.Setting) (externals : Externals) (k : Lockstep) : Verdict → Prop
  | .returned v w => k.source.final? = some v ∧ k.target.final? = some w ∧ v.lessDefined w
  | .sourceStuck =>
    k.source.final? = none ∧ ∃ reason, k.source.step c.source externals = .error reason
  | .truncated => k.source.final? = none
  | .diverged _ | .inconsistent => False

/-- States that match and are both final return values in order. -/
theorem lessDefined_of_final? {bound : Int} {w : Witness} {s t : State} {v v' : Val}
    (hmatch : w.mismatch? bound s t = none) (hs : s.final? = some v) (ht : t.final? = some v') :
    v.lessDefined v' := by
  obtain ⟨_, hs⟩ := State.final?_eq_some_iff.mp hs
  obtain ⟨_, ht⟩ := State.final?_eq_some_iff.mp ht
  obtain ⟨_, _, _, _, hcontrol⟩ := Witness.mismatch?_eq_none_iff.mp hmatch
  simpa [hs, ht, Witness.controlMismatch?] using hcontrol

/-- A comparison that is not over, and matches, ends in last states that bear its verdict out. -/
theorem Tracks.run (henv : c.env = .constant externals) (n : Nat) (h : Tracks c externals k)
    (hmatch : k.witness.mismatch? c.bound k.source k.target = none)
    (haccepted : (k.run c n).2.accepted) :
    Tracks c externals (k.run c n).1 ∧ Concludes c externals (k.run c n).1 (k.run c n).2 := by
  induction n generalizing k with
  | zero =>
    unfold Lockstep.run at haccepted ⊢
    cases hs : k.source.final? with
    | none => exact ⟨h, hs⟩
    | some v =>
      cases ht : k.target.final? with
      | none => simp [hs, ht, Verdict.accepted] at haccepted
      | some w => exact ⟨h, hs, ht, lessDefined_of_final? hmatch hs ht⟩
  | succ n ih =>
    unfold Lockstep.run at haccepted ⊢
    cases hs : k.source.final? with
    | some v =>
      cases ht : k.target.final? with
      | none => simp [hs, ht, Verdict.accepted] at haccepted
      | some w => exact ⟨h, hs, ht, lessDefined_of_final? hmatch hs ht⟩
    | none =>
      simp only [hs] at haccepted ⊢
      cases hadvance : k.advance c with
      | error r =>
        obtain ⟨k', v⟩ := r
        simp only [hadvance] at haccepted ⊢
        rcases advance_eq_error hadvance with ⟨rfl, rfl, reason, hstep⟩ | ⟨hv, _⟩
        · rw [henv] at hstep
          exact ⟨h, hs, reason, hstep⟩
        · simp [hv] at haccepted
      | ok k' =>
        simp only [hadvance] at haccepted ⊢
        obtain ⟨s, e, hstep, hfollow, _, hmatch'⟩ := advance_eq_ok_iff.mp hadvance
        rw [henv] at hstep
        exact ih (h.follow henv hstep hfollow) hmatch' haccepted

end Lockstep

/-! ## Comparisons -/

namespace Simulation

variable {p q : Program} {bound maxSteps : Int} {externals : Externals} {result : Simulation}

theorem run_eq_ok {env : Environment} (hp : p.malformed? = none) (hq : q.malformed? = none) :
    Simulation.run p q bound env maxSteps
      = .ok (start (.of p q bound env) (stepLimit maxSteps)) := by
  simp [Simulation.run, hp, hq]

/-- A comparison runs on from the initial states, if these match. -/
theorem start_eq {c : Setting} (n : Nat)
    (hmatch : Witness.start.mismatch? c.bound (.initial c.source) (.initial c.target) = none) :
    start c n = ⟨((Lockstep.start c).run c n).1, ((Lockstep.start c).run c n).2⟩ := by
  have hconfirm : (Lockstep.start c).confirm c = .ok (Lockstep.start c) :=
    Lockstep.confirm_eq_ok_iff.mpr ⟨rfl, rfl, hmatch⟩
  simp only [start, hconfirm]

theorem mismatch?_of_accepted {c : Setting} {n : Nat} (h : (start c n).verdict.accepted) :
    Witness.start.mismatch? c.bound (.initial c.source) (.initial c.target) = none := by
  unfold start at h
  cases hconfirm : (Lockstep.start c).confirm c with
  | error r =>
    obtain ⟨k, v⟩ := r
    have hv := (Lockstep.confirm_eq_error hconfirm).1
    cases v <;> simp_all [Verdict.accepted]
  | ok k =>
    obtain ⟨_, _, hmatch⟩ := Lockstep.confirm_eq_ok_iff.mp hconfirm
    exact hmatch

/-- What an accepting comparison of any two programs says is true of their runs.  The source takes
the steps that were counted and makes the calls that were listed.  The target takes as many steps,
less those that it skipped, without getting stuck, and its calls are in order with the listed ones.
The values that were found are what the runs return; and where the source was found stuck, it is
stuck after these steps. -/
theorem run_sound (hrun : Simulation.run p q bound (.constant externals) maxSteps = .ok result)
    (haccepted : result.verdict.accepted) :
    result.last.stutters ≤ result.last.steps ∧
    (∃ s, p.after externals result.last.steps = .ok (s, result.events) ∧
      (result.verdict = .sourceStuck →
        s.final? = none ∧ ∃ reason, s.step p externals = .error reason)) ∧
    (∃ t es, q.after externals (result.last.steps - result.last.stutters) = .ok (t, es) ∧
      List.Forall₂ Event.LessDefined result.events es) ∧
    ∀ v w, result.verdict = .returned v w →
      (p.run (.constant externals) result.last.steps).outcome = .returned v ∧
      (q.run (.constant externals) (result.last.steps - result.last.stutters)).outcome
        = .returned w ∧
      v.lessDefined w := by
  unfold Simulation.run at hrun
  split at hrun
  · cases hrun
  · cases hrun
  · cases hrun
    have hmatch := mismatch?_of_accepted haccepted
    rw [start_eq _ hmatch] at haccepted ⊢
    obtain ⟨⟨hsource, hle, es, htarget, hevents⟩, hconcludes⟩ :=
      (Lockstep.Tracks.start _ externals).run rfl _ hmatch haccepted
    refine ⟨hle, ⟨_, hsource, ?_⟩, ⟨_, es, htarget, hevents⟩, ?_⟩
    · intro hstuck
      dsimp only at hstuck
      rwa [hstuck] at hconcludes
    · intro v w hreturned
      dsimp only at hreturned
      rw [hreturned] at hconcludes
      obtain ⟨hs, ht, hvalue⟩ := hconcludes
      exact ⟨congrArg Run.outcome (State.run_eq_returned hsource hs (Nat.le_refl _) []),
        congrArg Run.outcome (State.run_eq_returned htarget ht (Nat.le_refl _) []), hvalue⟩

/-- The comparison of a program with its conversion, for at most twenty steps. -/
def relay (table : List (String × Int32)) : Simulation :=
  start (.of .relay .relayConverted 5 (.constant (External.sums table))) 20

theorem run_relay (table : List (String × Int32)) :
    Simulation.run .relay .relayConverted 5 (.constant (External.sums table)) 20
      = .ok (relay table) := rfl

/-- With the external function, sixteen steps of which the target skips six; without it, the source
is stuck after seven. -/
theorem run_sound_relay :
    (relay [("h", 2)]).verdict = .returned (.int 7) (.int 7) ∧
    (Program.relay.run (.constant (External.sums [("h", 2)])) 16).outcome = .returned (.int 7) ∧
    (Program.relayConverted.run (.constant (External.sums [("h", 2)])) 10).outcome
      = .returned (.int 7) ∧
    (relay []).verdict = .sourceStuck ∧
    ∃ s, Program.relay.after (External.sums []) 7 = .ok (s, []) ∧
      ∃ reason, s.step .relay (External.sums []) = .error reason := by
  have hverdict : (relay [("h", 2)]).verdict = .returned (.int 7) (.int 7) := by decide +kernel
  have hstuck : (relay []).verdict = .sourceStuck := by decide +kernel
  obtain ⟨_, _, _, hreturned⟩ := run_sound (run_relay [("h", 2)]) (by rw [hverdict]; rfl)
  obtain ⟨_, ⟨s, hs, hreason⟩, _⟩ := run_sound (run_relay []) (by rw [hstuck]; rfl)
  obtain ⟨hsource, htarget, _⟩ := hreturned _ _ hverdict
  exact ⟨hverdict, hsource, htarget, hstuck, s, hs, (hreason hstuck).2⟩

end Simulation

end RegisterTransfer
