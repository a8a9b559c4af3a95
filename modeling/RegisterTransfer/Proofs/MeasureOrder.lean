import RegisterTransfer.Proofs.Conversion
import RegisterTransfer.Proofs.Epilogues
set_option autoImplicit false

/-!
# The order of measures

The measure of a state is a number of frames, each of a fixed weight, and a rest that is smaller
than that weight.  So measures are ordered by the frames first and then by the rest
(`State.measure_lt_iff`).  A bound enters into the weight, and into the rest only as far as the code
reaches; cutting it to the longest code of a program therefore changes the measures of the program's
states, but not their order (`Program.measureBound_keeps_order`).
-/

namespace RegisterTransfer

namespace State

variable {s t : State} {p : Program} {bound : Int}

/-- The number of frames that the measure counts.  A state that enters a function counts none. -/
def countedFrames (s : State) : Nat :=
  match s.control with
  | .calling _ _ => 0
  | _ => s.depth

/-- What the measure counts beside the frames. -/
def countedSteps (s : State) (bound : Int) : Nat :=
  match s.control with
  | .running f _ pc _ => f.code.measure pc bound + 1
  | _ => 0

theorem countedFrames_le_depth (s : State) : s.countedFrames ≤ s.depth := by
  unfold countedFrames
  split <;> omega

theorem measure_eq (s : State) (bound : Int) :
    s.measure bound = s.countedFrames * (bound + 2) + s.countedSteps bound := by
  unfold measure countedFrames countedSteps
  cases s.control with
  | running f sp pc regs =>
    push_cast
    rw [Int.add_assoc]
  | calling callee args => simp
  | returning v => simp

/-- The steps count for less than a frame. -/
theorem countedSteps_lt (s : State) (hbound : 0 ≤ bound) :
    (s.countedSteps bound : Int) < bound + 2 := by
  unfold countedSteps
  split
  · rename_i f _ pc _ _
    have hmeasure := f.code.measure_le pc hbound
    push_cast
    omega
  · omega

/-- One more frame outweighs all steps. -/
theorem measure_lt_of_countedFrames_lt (hbound : 0 ≤ bound)
    (h : s.countedFrames < t.countedFrames) : s.measure bound < t.measure bound := by
  have hsteps := s.countedSteps_lt hbound
  have hframes : ((s.countedFrames : Int) + 1) * (bound + 2) ≤ t.countedFrames * (bound + 2) :=
    Int.mul_le_mul_of_nonneg_right (by omega) (by omega)
  rw [Int.add_mul, Int.one_mul] at hframes
  rw [measure_eq, measure_eq]
  omega

/-- Measures are ordered by the frames first, and then by the steps. -/
theorem measure_lt_iff (hbound : 0 ≤ bound) :
    s.measure bound < t.measure bound ↔
      s.countedFrames < t.countedFrames ∨
        s.countedFrames = t.countedFrames ∧ s.countedSteps bound < t.countedSteps bound := by
  rcases Nat.lt_trichotomy s.countedFrames t.countedFrames with hlt | heq | hgt
  · exact ⟨fun _ => .inl hlt, fun _ => measure_lt_of_countedFrames_lt hbound hlt⟩
  · rw [measure_eq, measure_eq, heq]
    omega
  · have hmeasure := measure_lt_of_countedFrames_lt hbound hgt
    omega

/-- A state whose running function, if it runs one, is one of the program's. -/
def RunsIn (p : Program) (s : State) : Prop :=
  ∀ f sp pc regs, s.control = .running f sp pc regs → f ∈ p.definitions

theorem RunsIn.countedSteps_measureBound (h : s.RunsIn p) (bound : Int) :
    s.countedSteps (p.measureBound bound) = s.countedSteps bound := by
  unfold countedSteps
  split
  · rename_i f sp pc regs hcontrol
    rw [Code.measure, Code.measure, Program.reach_measureBound (h f sp pc regs hcontrol)]
  · rfl

end State

namespace Program

variable {p : Program} {bound : Int}

/-- Cutting a bound to the longest code of a program changes neither which code of the program is an
epilogue nor the order of the measures of its states. -/
theorem measureBound_keeps_order (hbound : 0 ≤ bound) :
    (p.measureBound bound ≤ bound ∧ p.measureBound bound ≤ p.longestCode) ∧
    (∀ f ∈ p.definitions, ∀ pc r,
      f.code.isReturn pc r (p.measureBound bound) = f.code.isReturn pc r bound) ∧
    ∀ s t : State, s.RunsIn p → t.RunsIn p →
      (s.measure (p.measureBound bound) < t.measure (p.measureBound bound) ↔
        s.measure bound < t.measure bound) := by
  refine ⟨⟨Int.min_le_left _ _, Int.min_le_right _ _⟩,
    fun f hf pc r => isReturn_measureBound hf pc r, fun s t hs ht => ?_⟩
  rw [State.measure_lt_iff (p.measureBound_nonneg hbound), State.measure_lt_iff hbound,
    hs.countedSteps_measureBound, ht.countedSteps_measureBound]

/-- The function `f` of `relay` with two steps left before its return measures less than a state
that returns to a frame, under a bound of four as under one of a million. -/
theorem measureBound_keeps_order_relay :
    relay.measureBound 1000000 = 4 ∧
    ∃ f, relay.function? "f" = some f ∧ ∀ sp regs frame v,
      State.measure ⟨[], ∅, .running f sp 1 regs⟩ 4 = 3 ∧
      State.measure ⟨[], ∅, .running f sp 1 regs⟩ 1000000
        < State.measure ⟨[frame], ∅, .returning v⟩ 1000000 := by
  obtain ⟨-, -, horder⟩ := measureBound_keeps_order (p := relay) (show 0 ≤ 1000000 by decide)
  have hbound : relay.measureBound 1000000 = 4 := by decide +kernel
  rw [hbound] at horder
  refine ⟨hbound, _, rfl, fun sp regs frame v => ⟨rfl, (horder _ _ ?_ ?_).mp ?_⟩⟩
  · rintro f sp' pc regs' hcontrol
    cases hcontrol
    exact mem_definitions_iff.mpr ⟨"f", rfl⟩
  · rintro f sp' pc regs' hcontrol
    cases hcontrol
  · change (3 : Int) < 6
    decide

end Program

end RegisterTransfer
