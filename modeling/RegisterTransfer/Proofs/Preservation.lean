import RegisterTransfer.Proofs.PointerFree
import RegisterTransfer.Proofs.StepSimulation
set_option autoImplicit false

/-!
# Runs of a converted program

A converted program does what the program did: it returns what the program returned, or a value
that is more defined, after the same external calls (`Program.run_transform_returned`).  It never
falls behind by more than the epilogues that it skips, so a program that runs for ever is converted
into one that does (`Program.run_transform_lag`).
-/

namespace RegisterTransfer

namespace Program

variable {p q : Program} {c : Config} {abi : Abi} {externals : Externals}
variable {n k : Nat} {s : State} {es : List Event}

/-- Every run of a program is followed by a run of the converted program.  The steps that are left
to be skipped were paid for by the calls that elided their frames. -/
theorem exists_related_after (rule : Rule) (hmonotone : externals.Monotone)
    (hbound : 0 ≤ rule.bound)
    (hafter : p.after externals n = .ok (s, es)) (hrange : p.AccessesInRange externals n)
    (hblocks : p.BlocksInRange externals n) :
    ∃ m t es' w, (p.mapTransform rule).after externals m = .ok (t, es') ∧
      Related p rule w s t ∧ List.Forall₂ Event.LessDefined es es' ∧ m ≤ n ∧
      n + w.lag (p.measureBound rule.bound) s t ≤ (p.measureBound rule.bound + 2) * m := by
  have hB := p.measureBound_nonneg hbound
  induction n generalizing s es with
  | zero =>
    cases hafter
    refine ⟨0, _, [], .start, rfl, .initial p rule, .nil, Nat.le_refl 0, ?_⟩
    simp [Witness.lag, Witness.start, State.initial]
  | succ n ih =>
    obtain ⟨s', es', e, hafter', hstep, rfl⟩ := State.after_succ_eq_ok_iff.mp hafter
    obtain ⟨m, t, fs, w, hm, hrelated, hevents, hle, hlag⟩ :=
      ih hafter' (hrange.of_le (Nat.le_succ n)) (hblocks.of_le (Nat.le_succ n))
    have hblocks' := hblocks (n + 1) s _ (Nat.le_refl _) hafter
    by_cases hskips : w.skips s' t
    · obtain ⟨rfl, hrelated', _, hlag'⟩ := hrelated.skip hskips hstep hblocks'
      refine ⟨m, t, fs, _, hm, hrelated', by simpa using hevents, by omega, ?_⟩
      push_cast
      omega
    · obtain ⟨t', f, w', hstep', hevent, hw', hrelated', hkind⟩ :=
        hrelated.pair hmonotone hskips hstep (hrange n s' es' (Nat.lt_succ_self n) hafter') hblocks'
      have hlag' := Witness.lag_le_of_afterPair? (s := s') (t := t) hB hw' hkind
      refine ⟨m + 1, t', fs ++ f.toList, w',
        State.after_succ_eq_ok_iff.mpr ⟨t, fs, f, hm, hstep', rfl⟩, hrelated',
        List.rel_append hevents hevent, by omega, ?_⟩
      push_cast
      rw [Int.mul_add, Int.mul_one]
      omega

/-! ## What a converted program returns -/

/-- What a run of a program returns, the converted program returns within as many steps, or a value
that is more defined, and the external calls of both are in order.  The external functions must be
monotone, the blocks have numbers enough, and no access through a pointer ends past the last
offset. -/
theorem run_transform_returned {v : Val} (htransform : p.transform c abi = .ok q)
    (hmonotone : externals.Monotone) (hn : n < 2 ^ 32 - 1)
    (hrun : (p.run (.constant externals) n).outcome = .returned v)
    (hrange : p.AccessesInRange externals n) :
    ∃ v', (q.run (.constant externals) n).outcome = .returned v' ∧ v.lessDefined v' ∧
      List.Forall₂ Event.LessDefined (p.run (.constant externals) n).events
        (q.run (.constant externals) n).events := by
  obtain ⟨hconfig, _, rfl⟩ := transform_eq_ok_iff.mp htransform
  obtain ⟨k, s, hk, hafter, hfinal⟩ := State.exists_after_of_returned hrun
  obtain ⟨m, t, es', w, hm, hrelated, hevents, hle, _⟩ :=
    exists_related_after ⟨c.bound, abi⟩ hmonotone (bound_nonneg hconfig) hafter
      (hrange.of_le hk) (.of_lt (by omega))
  obtain ⟨v', hfinal', hvalue⟩ := hrelated.final? hfinal
  have hrun' : (p.mapTransform ⟨c.bound, abi⟩).run (.constant externals) n
      = ⟨.returned v', es'⟩ := State.run_eq_returned hm hfinal' (by omega) []
  rw [hrun']
  exact ⟨v', rfl, hvalue, hevents⟩

/-- Sixteen steps of the program, of which the converted one needs ten. -/
theorem run_transform_returned_relay :
    (relay.run (.constant (External.sums [("h", 2)])) 16).outcome = .returned (.int 7) ∧
    ∃ v', (relayConverted.run (.constant (External.sums [("h", 2)])) 16).outcome = .returned v' ∧
      (Val.int 7).lessDefined v' ∧
      List.Forall₂ Event.LessDefined (relay.run (.constant (External.sums [("h", 2)])) 16).events
        (relayConverted.run (.constant (External.sums [("h", 2)])) 16).events := by
  have hrun : (relay.run (.constant (External.sums [("h", 2)])) 16).outcome = .returned (.int 7) :=
    by decide +kernel
  exact ⟨hrun, run_transform_returned transform_relay (External.sums_monotone _) (by decide) hrun
    (.of_pointerFree (External.sums_pointerFree _) 16)⟩

/-! ## How far a converted program falls behind -/

/-- A converted program follows every run of the program that is within the range of offsets and
blocks, in at most as many steps, and in no fewer than one for each `B + 2` of them, where `B` bounds
the epilogues.  Hence, if the program runs for ever, so does the converted one, for as many steps as
are paid for within that range. -/
theorem run_transform_lag (htransform : p.transform c abi = .ok q)
    (hmonotone : externals.Monotone) :
    (∀ n s es, p.after externals n = .ok (s, es) → p.AccessesInRange externals n →
      p.BlocksInRange externals n →
      ∃ m t es', q.after externals m = .ok (t, es') ∧ m ≤ n ∧
        (n : Int) ≤ (p.measureBound c.bound + 2) * m ∧ List.Forall₂ Event.LessDefined es es' ∧
        ∃ w : Witness, w.elided.length = s.stack.length ∧
          w.mismatch? (p.measureBound c.bound) s t = none) ∧
    ((∀ n, (p.run (.constant externals) n).outcome = .unfinished) →
      ∀ n, p.AccessesInRange externals ((p.measureBound c.bound + 2).toNat * n + 1) →
        p.BlocksInRange externals ((p.measureBound c.bound + 2).toNat * n + 1) →
        (q.run (.constant externals) n).outcome = .unfinished) := by
  obtain ⟨hconfig, _, rfl⟩ := transform_eq_ok_iff.mp htransform
  have hbound := bound_nonneg hconfig
  have hB := p.measureBound_nonneg hbound
  constructor
  · intro n s es hafter hrange hblocks
    obtain ⟨m, t, es', w, hm, hrelated, hevents, hle, hlag⟩ :=
      exists_related_after ⟨c.bound, abi⟩ hmonotone hbound hafter hrange hblocks
    have hnonneg := w.lag_nonneg hB s t
    dsimp only at hlag
    exact ⟨m, t, es', hm, hle, by omega, hevents, w, hrelated.length,
      hrelated.mismatch?_eq_none (hblocks n s es (Nat.le_refl n) hafter)⟩
  · intro hrun n hrange hblocks
    -- More source steps than `n` target steps can pay for lead past the first `n` target steps.
    obtain ⟨s, es, hafter, _⟩ :=
      State.exists_after_of_unfinished (hrun ((p.measureBound c.bound + 2).toNat * n + 1))
    obtain ⟨m, t, es', w, hm, hrelated, _, _, hlag⟩ :=
      exists_related_after ⟨c.bound, abi⟩ hmonotone hbound hafter hrange hblocks
    have hlt : n < m := by
      by_contra hle
      have hpaid : (p.measureBound c.bound + 2) * m ≤ (p.measureBound c.bound + 2) * n :=
        Int.mul_le_mul_of_nonneg_left (by omega) (by omega)
      have hnonneg := w.lag_nonneg hB s t
      dsimp only at hlag
      push_cast at hlag
      rw [Int.toNat_of_nonneg (by omega)] at hlag
      omega
    obtain ⟨t', fs, hafter'⟩ := State.exists_after_of_le hm (Nat.succ_le_of_lt hlt)
    obtain ⟨t'', fs', e, hafter'', hstep, _⟩ := State.after_succ_eq_ok_iff.mp hafter'
    exact congrArg Run.outcome
      (State.run_eq_unfinished hafter'' (State.final?_eq_none_of_step hstep) [])

/-- A program in which `main` returns what `f` returns, and `f` never does. -/
def waiting : Program where
  main := "main"
  functions := .ofList [
    ("main", some ⟨"main", ⟨[], .int, false⟩, [], 0, 0, ⟨#[
      some (.call ⟨[], .int, false⟩ (.symbol "f") [] 1 1),
      some (.ret (some 1))]⟩⟩),
    ("f", some ⟨"f", ⟨[], .int, false⟩, [], 0, 0, ⟨#[some (.nop 0)]⟩⟩)]

/-- From its third step on the program stays in one state. -/
theorem exists_after_waiting : ∃ s, s.memory.regions.size = 2 ∧ s.final? = none ∧
    ∀ n, 3 ≤ n → waiting.after (External.sums []) n = .ok (s, []) :=
  ⟨_, rfl, rfl, fun _ hn => State.after_of_loop rfl rfl hn⟩

theorem run_waiting (n : Nat) :
    (waiting.run (.constant (External.sums [])) n).outcome = .unfinished := by
  obtain ⟨s, _, hfinal, hafter⟩ := exists_after_waiting
  by_cases hn : 3 ≤ n
  · exact congrArg Run.outcome (State.run_eq_unfinished (hafter n hn) hfinal [])
  · obtain rfl | rfl | rfl : n = 0 ∨ n = 1 ∨ n = 2 := by omega
    all_goals rfl

theorem blocksInRange_waiting (n : Nat) : waiting.BlocksInRange (External.sums []) n := by
  obtain ⟨s, hsize, _, hafter⟩ := exists_after_waiting
  intro k s' es hk h
  by_cases hk : 3 ≤ k
  · cases (hafter k hk).symm.trans h
    omega
  · have hle := (after_size_le h).1
    omega

/-- Fourteen steps of one program, which end in an epilogue that its conversion skips, and another
program that runs for ever, with and without a frame for `main`. -/
theorem run_transform_lag_relay_waiting :
    (∃ m t es, relayConverted.after (External.sums [("h", 2)]) m = .ok (t, es) ∧ m ≤ 14 ∧
      (14 : Int) ≤ (relay.measureBound 5 + 2) * m) ∧
    ∀ n, ((waiting.mapTransform Config.standard.rule).run (.constant (External.sums [])) n).outcome
      = .unfinished := by
  obtain ⟨hrelay, _⟩ := run_transform_lag transform_relay (External.sums_monotone [("h", 2)])
  obtain ⟨m, t, es, hm, hle, hlag, _⟩ := hrelay 14 _ _ rfl
    (.of_pointerFree (External.sums_pointerFree _) 14) (.of_lt (by decide))
  obtain ⟨_, hwaiting⟩ := run_transform_lag (p := waiting) (c := .standard)
    (transform_eq_ok_iff.mpr ⟨rfl, by decide +kernel, rfl⟩) (External.sums_monotone [])
  exact ⟨⟨m, t, es, hm, hle, hlag⟩, fun n => hwaiting run_waiting n
    (.of_pointerFree (External.sums_pointerFree _) _) (blocksInRange_waiting _)⟩

end Program

end RegisterTransfer
