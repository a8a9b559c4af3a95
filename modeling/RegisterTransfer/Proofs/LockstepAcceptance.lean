import RegisterTransfer.CommandLine.Execution
import RegisterTransfer.Proofs.LockstepSoundness
import RegisterTransfer.Proofs.MeasureOrder
import RegisterTransfer.Proofs.Preservation
set_option autoImplicit false

/-!
# Conversions are accepted

The comparison of a program with its conversion finds no divergence
(`Simulation.run_transform_accepted`).  Along it the states are related, and in a row of skipped
steps the measure that is left and the steps that were skipped are together no more than the measure
at the start of the row (`Lockstep.Follows`).  The comparison keeps measures as numbers of 64 bits,
so the run must not be so long that they wrap around.
-/

namespace RegisterTransfer

/-! ## Measures of 64 bits -/

namespace State

variable {bound : Int}

theorem measure_nonneg (hbound : 0 ≤ bound) (s : State) : 0 ≤ s.measure bound := by
  have hframes : 0 ≤ (s.countedFrames : Int) * (bound + 2) :=
    Int.mul_nonneg (Int.natCast_nonneg _) (by omega)
  rw [measure_eq]
  omega

/-- The measure is below what one more frame would count for. -/
theorem measure_lt (hbound : 0 ≤ bound) (s : State) :
    s.measure bound < ((s.depth : Int) + 1) * (bound + 2) := by
  have hsteps := s.countedSteps_lt hbound
  have hframes : (s.countedFrames : Int) * (bound + 2) ≤ s.depth * (bound + 2) :=
    Int.mul_le_mul_of_nonneg_right (Int.ofNat_le.mpr s.countedFrames_le_depth) (by omega)
  rw [measure_eq, Int.add_mul, Int.one_mul]
  omega

/-- The measure of a state of little depth does not wrap around. -/
theorem toInt_measure64_of_depth {s : State} {n : Nat} (hbound : 0 ≤ bound) (hdepth : s.depth ≤ n)
    (hn : ((n : Int) + 1) * (bound + 2) < 2 ^ 63) :
    (s.measure64 bound).toInt = s.measure bound := by
  have hle : ((s.depth : Int) + 1) * (bound + 2) ≤ ((n : Int) + 1) * (bound + 2) :=
    Int.mul_le_mul_of_nonneg_right (by omega) (by omega)
  have hlt := s.measure_lt hbound
  have hnonneg := s.measure_nonneg hbound
  exact Int64.toInt_ofInt_of_le (by omega) (by omega)

/-- The measure of a state that a short run reaches does not wrap around. -/
theorem toInt_measure64 {p : Program} {externals : Externals} {s : State} {es : List Event}
    {n : Nat} (hbound : 0 ≤ bound) (h : p.after externals n = .ok (s, es))
    (hn : ((n : Int) + 1) * (bound + 2) < 2 ^ 63) :
    (s.measure64 bound).toInt = s.measure bound :=
  toInt_measure64_of_depth hbound
    (Nat.le_trans s.depth_le_length_frames (Program.after_size_le h).2) hn

end State

namespace Lockstep

/-- A silent step that decreases the measure passes the checks of skipped steps, if the measure
after it does not wrap around, and if so far the measure that is left and the steps that were skipped
are together no more than the measure at the start of the row.  This then holds after the step
too. -/
theorem skip_of_decreases {c : Simulation.Setting} {k : Lockstep} (before : Int64)
    (hnonneg : 0 ≤ k.source.measure c.bound)
    (hafter : (k.source.measure64 c.bound).toInt = k.source.measure c.bound)
    (hdecreases : k.source.measure c.bound < before.toInt)
    (hrow : k.stutterRun = 0 ∨ k.stutterRun + before.toInt ≤ k.runStart.toInt) :
    ∃ start : Int64, (k.stutterRun + 1 : Nat) + k.source.measure c.bound ≤ start.toInt ∧
      k.skip c before none = .ok { k with
        runStart := start
        stutterRun := k.stutterRun + 1
        stutters := k.stutters + 1
        maxStutterRun := max k.maxStutterRun (k.stutterRun + 1) } := by
  have hrow' : (k.stutterRun + 1 : Nat) + k.source.measure c.bound
      ≤ (if k.stutterRun = 0 then before else k.runStart).toInt := by
    split
    · omega
    · rcases hrow with hzero | hrow
      · contradiction
      · omega
  refine ⟨_, hrow', skip_eq_ok_iff.mpr ⟨rfl, ?_, ?_, rfl⟩⟩
  · exact Int64.lt_iff_toInt_lt.mpr (by omega)
  · exact Int.le_trans (Int.le_add_of_nonneg_right hnonneg) hrow'

/-! ## Comparisons with a conversion -/

variable {p : Program} {rule : Rule} {externals : Externals} {k : Lockstep}

/-- The comparison of a program with its conversion, in the middle. -/
structure Follows (p : Program) (rule : Rule) (externals : Externals) (k : Lockstep) : Prop where
  source : p.after externals k.steps = .ok (k.source, k.events.reverse)
  related : Related p rule k.witness k.source k.target
  row : k.stutterRun = 0 ∨
    k.stutterRun + k.source.measure (p.measureBound rule.bound) ≤ k.runStart.toInt

/-- A step that the target skips, or one that it matches, passes the checks. -/
theorem Follows.follow {s : State} {e : Option Event} (hmonotone : externals.Monotone)
    (hbound : 0 ≤ rule.bound) (h : Follows p rule externals k)
    (hstep : k.source.step p externals = .ok (s, e)) (hrange : k.source.AccessInRange)
    (hblocks : s.memory.regions.size < 2 ^ 32 - 1)
    (hmeasure : (((k.steps + 1 : Nat) : Int) + 1) * (p.measureBound rule.bound + 2) < 2 ^ 63) :
    ∃ k', k.follow (.of p (p.mapTransform rule) rule.bound (.constant externals)) s e = .ok k' ∧
      Follows p rule externals k' := by
  have hB := p.measureBound_nonneg hbound
  have hafter : p.after externals (k.steps + 1) = .ok (s, k.events.reverse ++ e.toList) :=
    State.after_succ_eq_ok_iff.mpr ⟨_, _, e, h.source, hstep, rfl⟩
  unfold Lockstep.follow
  by_cases hskips : k.witness.skips k.source k.target
  · obtain ⟨rfl, hrelated, hdecreases, _⟩ := h.related.skip hskips hstep hblocks
    -- Neither measure wraps around, so the order of the numbers of 64 bits is theirs.
    have hbefore : (k.source.measure64 (p.measureBound rule.bound)).toInt
        = k.source.measure (p.measureBound rule.bound) := by
      refine State.toInt_measure64 hB h.source (Int.lt_of_le_of_lt ?_ hmeasure)
      exact Int.mul_le_mul_of_nonneg_right (by omega) (by omega)
    have hafter64 : (s.measure64 (p.measureBound rule.bound)).toInt
        = s.measure (p.measureBound rule.bound) := State.toInt_measure64 hB hafter hmeasure
    obtain ⟨start, hrow, hskip⟩ := skip_of_decreases (k := k.moved s none)
      (c := .of p (p.mapTransform rule) rule.bound (.constant externals))
      (k.source.measure64 (p.measureBound rule.bound)) (s.measure_nonneg hB) hafter64
      (hbefore ▸ hdecreases) (hbefore ▸ h.row)
    rw [if_pos hskips]
    refine ⟨_, hskip, by simpa [moved] using hafter, ?_, .inr hrow⟩
    simpa [moved, hskips] using hrelated
  · obtain ⟨t, e', w, hstep', hevents, hw, hrelated, _⟩ :=
      h.related.pair hmonotone hskips hstep hrange hblocks
    rw [if_neg hskips]
    refine ⟨_, pair_eq_ok_iff.mpr ⟨t, e', w, hstep', Event.mismatch?_eq_none_iff.mpr hevents, ?_,
      rfl⟩, ?_⟩
    · simpa [moved, hskips] using hw
    · exact ⟨by cases e <;> simpa [moved] using hafter, hrelated, .inl rfl⟩

/-- A step of the source takes the comparison on. -/
theorem Follows.advance {s : State} {e : Option Event} (hmonotone : externals.Monotone)
    (hbound : 0 ≤ rule.bound) (h : Follows p rule externals k)
    (hstep : k.source.step p externals = .ok (s, e)) (hrange : k.source.AccessInRange)
    (hblocks : s.memory.regions.size < 2 ^ 32 - 1)
    (hmeasure : (((k.steps + 1 : Nat) : Int) + 1) * (p.measureBound rule.bound + 2) < 2 ^ 63) :
    ∃ k', k.advance (.of p (p.mapTransform rule) rule.bound (.constant externals)) = .ok k' ∧
      Follows p rule externals k' := by
  obtain ⟨k', hfollow, h'⟩ := h.follow hmonotone hbound hstep hrange hblocks hmeasure
  have hsource : k'.source = s := (follow_eq_ok hfollow).1
  have hmatch := h'.related.mismatch?_eq_none (hsource ▸ hblocks)
  exact ⟨k', advance_eq_ok_iff.mpr ⟨s, e, hstep, hfollow, h'.related.length, hmatch⟩, h'⟩

/-! ## Whole comparisons -/

theorem steps_le_run (c : Simulation.Setting) (n : Nat) (k : Lockstep) :
    k.steps ≤ (k.run c n).1.steps := by
  induction n generalizing k with
  | zero =>
    unfold Lockstep.run
    split <;> exact Nat.le_refl _
  | succ n ih =>
    unfold Lockstep.run
    split
    · exact Nat.le_refl _
    · exact Nat.le_refl _
    · split
      · rename_i r hadvance
        rcases advance_eq_error hadvance with ⟨_, hk, _⟩ | ⟨_, hsteps⟩
        · exact Nat.le_of_eq (congrArg steps hk.symm)
        · exact hsteps ▸ Nat.le_succ _
      · rename_i k' hadvance
        obtain ⟨_, _, _, hfollow, _⟩ := advance_eq_ok_iff.mp hadvance
        exact Nat.le_trans ((follow_eq_ok hfollow).2.1 ▸ Nat.le_succ _) (ih k')

/-- A comparison whose source takes a step counts it, whatever its verdict is. -/
theorem steps_lt_run_succ {c : Simulation.Setting} {s : State} {e : Option Event} (n : Nat)
    (hstep : k.source.step c.source (c.env k.history) = .ok (s, e)) :
    k.steps < (k.run c (n + 1)).1.steps := by
  simp only [Lockstep.run, State.final?_eq_none_of_step hstep]
  cases hadvance : k.advance c with
  | error r =>
    rcases advance_eq_error hadvance with ⟨_, _, reason, hstuck⟩ | ⟨_, hsteps⟩
    · cases hstep.symm.trans hstuck
    · exact hsteps ▸ Nat.lt_succ_self _
  | ok k' =>
    obtain ⟨_, _, _, hfollow, _⟩ := advance_eq_ok_iff.mp hadvance
    exact Nat.lt_of_lt_of_le ((follow_eq_ok hfollow).2.1 ▸ Nat.lt_succ_self _) (steps_le_run c n k')

/-- A comparison is accepted, and keeps an invariant to its end, if the target is final wherever the
source is, and each step that the comparison counts keeps the invariant. -/
theorem run_accepted {c : Simulation.Setting} {N : Nat} (Inv : Lockstep → Prop)
    (hfinals : ∀ k v, Inv k → k.source.final? = some v → ∃ w, k.target.final? = some w)
    (hsteps : ∀ k s e, Inv k → k.source.step c.source (c.env k.history) = .ok (s, e) →
      k.steps < N → ∃ k', k.advance c = .ok k' ∧ Inv k')
    (n : Nat) (h : Inv k) (hN : (k.run c n).1.steps ≤ N) :
    (k.run c n).2.accepted ∧ Inv (k.run c n).1 := by
  induction n generalizing k with
  | zero =>
    cases hfinal : k.source.final? with
    | some v =>
      obtain ⟨w, hfinal'⟩ := hfinals k v h hfinal
      simp [Lockstep.run, hfinal, hfinal', Verdict.accepted, h]
    | none => simp [Lockstep.run, hfinal, Verdict.accepted, h]
  | succ n ih =>
    cases hfinal : k.source.final? with
    | some v =>
      obtain ⟨w, hfinal'⟩ := hfinals k v h hfinal
      simp [Lockstep.run, hfinal, hfinal', Verdict.accepted, h]
    | none =>
      cases hstep : k.source.step c.source (c.env k.history) with
      | error reason =>
        have hadvance : k.advance c = .error (k, .sourceStuck) := by simp [Lockstep.advance, hstep]
        simp [Lockstep.run, hfinal, hadvance, Verdict.accepted, h]
      | ok r =>
        obtain ⟨s, e⟩ := r
        have hlt : k.steps < N := Nat.lt_of_lt_of_le (steps_lt_run_succ n hstep) hN
        obtain ⟨k', hadvance, h'⟩ := hsteps k s e h hstep hlt
        simp only [Lockstep.run, hfinal, hadvance] at hN ⊢
        exact ih h' hN

/-- A comparison with a conversion is accepted, if the steps that it counts in the end are within
the range of offsets and blocks, and so few that no measure wraps around. -/
theorem Follows.run {N : Nat} (hmonotone : externals.Monotone) (hbound : 0 ≤ rule.bound)
    (hrange : p.AccessesInRange externals N) (hblocks : p.BlocksInRange externals N)
    (hmeasure : ((N : Int) + 1) * (p.measureBound rule.bound + 2) < 2 ^ 63) (n : Nat)
    (h : Follows p rule externals k)
    (hN : (k.run (.of p (p.mapTransform rule) rule.bound (.constant externals)) n).1.steps ≤ N) :
    (k.run (.of p (p.mapTransform rule) rule.bound (.constant externals)) n).2.accepted := by
  refine (run_accepted (Follows p rule externals) (fun k v h hfinal => ?_)
    (fun k s e h hstep hlt => ?_) n h hN).1
  · obtain ⟨w, hfinal', _⟩ := h.related.final? hfinal
    exact ⟨w, hfinal'⟩
  · have hafter : p.after externals (k.steps + 1) = .ok (s, k.events.reverse ++ e.toList) :=
      State.after_succ_eq_ok_iff.mpr ⟨_, _, e, h.source, hstep, rfl⟩
    have hB := p.measureBound_nonneg hbound
    have hmeasure' :
        (((k.steps + 1 : Nat) : Int) + 1) * (p.measureBound rule.bound + 2) < 2 ^ 63 :=
      Int.lt_of_le_of_lt (Int.mul_le_mul_of_nonneg_right (by omega) (by omega)) hmeasure
    exact h.advance hmonotone hbound hstep (hrange k.steps _ _ hlt h.source)
      (hblocks _ s _ hlt hafter) hmeasure'

end Lockstep

/-! ## Comparing a program with its conversion -/

namespace Simulation

variable {p q : Program} {c : Config} {abi : Abi} {externals : Externals}

/-- The comparison of a program with its conversion finds both well formed and ends without a
divergence, however many steps it may take, if the steps that the source takes in it are within the
range of offsets and blocks, and so few that no measure wraps around.  The external functions must
be monotone, as those of the command line are; where they return no pointers, all accesses are in
range. -/
theorem run_transform_accepted (htransform : p.transform c abi = .ok q)
    (hmonotone : externals.Monotone) (maxSteps : Int) :
    (∃ result, Simulation.run p q c.bound (.constant externals) maxSteps = .ok result ∧
      (p.AccessesInRange externals result.last.steps → p.BlocksInRange externals result.last.steps →
        ((result.last.steps : Int) + 1) * (p.measureBound c.bound + 2) < 2 ^ 63 →
        result.verdict.accepted)) ∧
    (externals.PointerFree → ∀ n, p.AccessesInRange externals n) ∧
    ∀ o : Options, ∃ sums, Execution.environment o = .constant sums ∧ sums.Monotone := by
  obtain ⟨hconfig, hwellformed, rfl⟩ := Program.transform_eq_ok_iff.mp htransform
  have hinitial := Related.initial p ⟨c.bound, abi⟩
  have hmatch := hinitial.mismatch?_eq_none (show 0 < 2 ^ 32 - 1 by decide)
  refine ⟨⟨_, run_eq_ok hwellformed (Program.malformed?_mapTransform _ hwellformed), ?_⟩,
    fun hfree n => .of_pointerFree hfree n, fun o => ?_⟩
  · intro hrange hblocks hmeasure
    have hstart := start_eq (c := .of p (p.mapTransform ⟨c.bound, abi⟩) c.bound
      (.constant externals)) (stepLimit maxSteps) hmatch
    rw [hstart] at hrange hblocks hmeasure ⊢
    dsimp only at hrange hblocks hmeasure ⊢
    have hfollows : (Lockstep.start (.of p (p.mapTransform ⟨c.bound, abi⟩) c.bound
        (.constant externals))).Follows p ⟨c.bound, abi⟩ externals := ⟨rfl, hinitial, .inl rfl⟩
    refine hfollows.run hmonotone (Program.bound_nonneg hconfig) hrange hblocks ?_ _ (Nat.le_refl _)
    exact hmeasure
  · refine ⟨_, ?_, External.sums_monotone (o.externals.map fun e => (e.1, Int32.ofInt e.2))⟩
    rw [← External.environment_sums, List.map_map]
    rfl

/-- A comparison of sixteen source steps, which is within all the ranges. -/
theorem run_transform_accepted_relay :
    Simulation.run .relay .relayConverted 5 (.constant (External.sums [("h", 2)])) 20
      = .ok (relay [("h", 2)]) ∧
    (relay [("h", 2)]).last.steps = 16 ∧ (relay [("h", 2)]).verdict.accepted := by
  have hsteps : (relay [("h", 2)]).last.steps = 16 := by decide +kernel
  obtain ⟨⟨result, hrun, haccepted⟩, hrange, _⟩ :=
    run_transform_accepted Program.transform_relay (External.sums_monotone [("h", 2)]) 20
  obtain rfl : result = relay [("h", 2)] := Except.ok.inj (hrun.symm.trans (run_relay _))
  rw [hsteps] at haccepted
  exact ⟨run_relay _, hsteps,
    haccepted (hrange (External.sums_pointerFree _) 16) (.of_lt (by decide)) (by decide +kernel)⟩

end Simulation

end RegisterTransfer
