import RegisterTransfer.Simulation.Measure
set_option autoImplicit false

/-!
# Epilogues and their measure

`Code.Epilogue` says what an epilogue is, without a bound on its length; the walk finds those whose
length is within its bound.  Along an epilogue the measure counts the steps that are left before
the return, so it decreases by one with every no-operation and every move.  Cutting the bound to
the longest code of a program changes neither the epilogues of its functions nor their measures.
-/

namespace RegisterTransfer

namespace Code

/-- The points of an epilogue of a register: no-operations and moves out of the register that holds
the value, and a return of that register or of no value. -/
inductive Epilogue (code : Code) : Point → Reg → List Point → Prop
  | ret {pc : Point} {r : Reg} {value : Option Reg} (hat : code.at? pc = some (.ret value))
      (hvalue : value = none ∨ value = some r) : Epilogue code pc r [pc]
  | nop {pc succ : Point} {r : Reg} {points : List Point} (hat : code.at? pc = some (.nop succ))
      (rest : Epilogue code succ r points) : Epilogue code pc r (pc :: points)
  | move {pc succ : Point} {r dest : Reg} {points : List Point}
      (hat : code.at? pc = some (.op .move [r] dest succ))
      (rest : Epilogue code succ dest points) : Epilogue code pc r (pc :: points)

variable {code : Code} {n : Nat} {pc : Point} {r : Reg} {points : List Point} {bound : Int}

theorem epilogue_of_walk? (h : code.walk? n pc r = some points) :
    code.Epilogue pc r points ∧ points.length ≤ n := by
  induction n generalizing pc r points with
  | zero => cases h
  | succ n ih =>
    simp only [walk?] at h
    split at h
    · rename_i hat
      cases h
      exact ⟨.ret hat (.inl rfl), by simp⟩
    · rename_i hat
      split at h
      · rename_i hr
        cases h
        exact ⟨.ret hat (.inr (congrArg some hr)), by simp⟩
      · cases h
    · rename_i hat
      obtain ⟨rest, hrest, rfl⟩ := Option.map_eq_some_iff.mp h
      obtain ⟨hepilogue, hlength⟩ := ih hrest
      exact ⟨.nop hat hepilogue, Nat.succ_le_succ hlength⟩
    · rename_i hat
      split at h
      · rename_i hsource
        obtain ⟨_, _, hmove⟩ := Instr.moveSource?_eq_some_iff.mp hsource
        cases hmove
        obtain ⟨rest, hrest, rfl⟩ := Option.map_eq_some_iff.mp h
        obtain ⟨hepilogue, hlength⟩ := ih hrest
        exact ⟨.move hat hepilogue, Nat.succ_le_succ hlength⟩
      · cases h
    · cases h

theorem Epilogue.walk? (h : code.Epilogue pc r points) (hlength : points.length ≤ n) :
    code.walk? n pc r = some points := by
  induction h generalizing n with
  | ret hat hvalue =>
    obtain ⟨n, rfl⟩ : ∃ k, n = k + 1 := ⟨n - 1, by simp at hlength; omega⟩
    rcases hvalue with rfl | rfl <;> simp [Code.walk?, hat]
  | nop hat rest ih =>
    obtain ⟨n, rfl⟩ : ∃ k, n = k + 1 := ⟨n - 1, by simp at hlength; omega⟩
    simp [Code.walk?, hat, ih (Nat.le_of_succ_le_succ hlength)]
  | move hat rest ih =>
    obtain ⟨n, rfl⟩ : ∃ k, n = k + 1 := ⟨n - 1, by simp at hlength; omega⟩
    simp [Code.walk?, hat, ih (Nat.le_of_succ_le_succ hlength)]

/-- The walk finds the epilogues whose length is within its bound. -/
theorem walk?_eq_some_iff :
    code.walk? n pc r = some points ↔ code.Epilogue pc r points ∧ points.length ≤ n :=
  ⟨epilogue_of_walk?, fun h => h.1.walk? h.2⟩

theorem isReturn_iff :
    code.isReturn pc r bound ↔
      ∃ points, code.Epilogue pc r points ∧ points.length ≤ code.reach bound := by
  simp only [isReturn, epilogue?, Option.isSome_iff_exists, walk?_eq_some_iff]

/-! ## The measure -/

theorem straight_le (n : Nat) (pc : Point) : code.straight n pc ≤ n := by
  induction n generalizing pc with
  | zero => simp [straight]
  | succ n ih =>
    simp only [straight]
    split
    · exact Nat.succ_le_succ (ih _)
    · split
      · exact Nat.succ_le_succ (ih _)
      · exact Nat.zero_le _
    · exact Nat.zero_le _

/-- No measure exceeds the bound. -/
theorem measure_le (pc : Point) (hbound : 0 ≤ bound) : (code.measure pc bound : Int) ≤ bound := by
  have h : code.measure pc bound ≤ code.reach bound := straight_le _ pc
  simp only [reach] at h
  omega

/-- All points of an epilogue but the last are counted by the measure. -/
theorem Epilogue.straight (h : code.Epilogue pc r points) (hlength : points.length ≤ n) :
    code.straight n pc + 1 = points.length := by
  induction h generalizing n with
  | ret hat _ =>
    obtain ⟨n, rfl⟩ : ∃ k, n = k + 1 := ⟨n - 1, by simp at hlength; omega⟩
    simp [Code.straight, hat]
  | nop hat rest ih =>
    obtain ⟨n, rfl⟩ : ∃ k, n = k + 1 := ⟨n - 1, by simp at hlength; omega⟩
    simp [Code.straight, hat, ih (Nat.le_of_succ_le_succ hlength)]
  | move hat rest ih =>
    obtain ⟨n, rfl⟩ : ∃ k, n = k + 1 := ⟨n - 1, by simp at hlength; omega⟩
    simp [Code.straight, hat, ih (Nat.le_of_succ_le_succ hlength)]

/-- The return of an epilogue is within the bound too. -/
theorem measure_lt_of_isReturn (h : code.isReturn pc r bound) :
    (code.measure pc bound : Int) + 1 ≤ bound := by
  obtain ⟨points, hepilogue, hlength⟩ := isReturn_iff.mp h
  have hmeasure : code.measure pc bound + 1 = points.length := hepilogue.straight hlength
  simp only [reach] at hlength
  omega

/-- The first instruction of an epilogue, what follows it, and how the measure goes on. -/
theorem isReturn_cases (h : code.isReturn pc r bound) :
    (∃ value, code.at? pc = some (.ret value) ∧ (value = none ∨ value = some r)) ∨
    (∃ succ, code.at? pc = some (.nop succ) ∧ code.isReturn succ r bound ∧
      code.measure pc bound = code.measure succ bound + 1) ∨
    (∃ dest succ, code.at? pc = some (.op .move [r] dest succ) ∧ code.isReturn succ dest bound ∧
      code.measure pc bound = code.measure succ bound + 1) := by
  obtain ⟨points, hepilogue, hlength⟩ := isReturn_iff.mp h
  have hmeasure : code.measure pc bound + 1 = points.length := hepilogue.straight hlength
  cases hepilogue with
  | ret hat hvalue => exact .inl ⟨_, hat, hvalue⟩
  | @nop _ succ _ points hat rest =>
    have hlength : points.length ≤ code.reach bound := Nat.le_of_succ_le hlength
    have hsucc : code.measure succ bound + 1 = points.length := rest.straight hlength
    refine .inr (.inl ⟨succ, hat, isReturn_iff.mpr ⟨points, rest, hlength⟩, ?_⟩)
    simp only [List.length_cons] at hmeasure
    omega
  | @move _ succ _ dest points hat rest =>
    have hlength : points.length ≤ code.reach bound := Nat.le_of_succ_le hlength
    have hsucc : code.measure succ bound + 1 = points.length := rest.straight hlength
    refine .inr (.inr ⟨dest, succ, hat, isReturn_iff.mpr ⟨points, rest, hlength⟩, ?_⟩)
    simp only [List.length_cons] at hmeasure
    omega

end Code

/-! ## The bound of a program -/

namespace Program

variable {p : Program} {f : Function} {bound : Int}

theorem mem_definitions_iff : f ∈ p.definitions ↔ ∃ name, p.function? name = some f := by
  simp only [definitions, FinMap.values, function?, List.mem_filterMap, List.mem_map, Prod.exists,
    id_eq, exists_eq_right, Option.join_eq_some_iff, FinMap.get?_eq_some_iff_mem]

theorem size_le_longestCode (h : f ∈ p.definitions) : f.code.size ≤ p.longestCode := by
  -- A fold of `max` stays above its start and above every element that it has passed.
  have hfold : ∀ (l : List Function) (n : Nat),
      n ≤ l.foldl (fun n f => max n f.code.size) n ∧
        ∀ f ∈ l, f.code.size ≤ l.foldl (fun n f => max n f.code.size) n := by
    intro l
    induction l with
    | nil => simp
    | cons g l ih =>
      intro n
      obtain ⟨hstart, hrest⟩ := ih (max n g.code.size)
      refine ⟨Nat.le_trans (Nat.le_max_left _ _) hstart, fun f hf => ?_⟩
      rcases List.mem_cons.mp hf with rfl | hf
      · exact Nat.le_trans (Nat.le_max_right _ _) hstart
      · exact hrest f hf
  exact (hfold p.definitions 0).2 f h

theorem measureBound_nonneg (p : Program) {bound : Int} (hbound : 0 ≤ bound) :
    0 ≤ p.measureBound bound := by
  simp only [measureBound]
  omega

/-- Epilogues of a program's functions are found alike under its own bound. -/
theorem reach_measureBound (h : f ∈ p.definitions) :
    f.code.reach (p.measureBound bound) = f.code.reach bound := by
  have hsize := size_le_longestCode h
  simp only [Code.reach, measureBound]
  omega

theorem isReturn_measureBound (h : f ∈ p.definitions) (pc : Point) (r : Reg) :
    f.code.isReturn pc r (p.measureBound bound) = f.code.isReturn pc r bound := by
  simp only [Code.isReturn, Code.epilogue?, reach_measureBound h]

end Program

end RegisterTransfer
