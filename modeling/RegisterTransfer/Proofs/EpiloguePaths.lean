import Mathlib.Data.List.Nodup
import Mathlib.Data.List.Perm.Subperm
import RegisterTransfer.Proofs.Epilogues
set_option autoImplicit false

/-!
# Epilogues as paths

The next point of an epilogue depends on the instruction alone, not on the register that holds the
value: two epilogues from one point have the same points, whatever registers they return.  An epilogue
that came to a point twice would therefore be longer than itself.  So the points of an epilogue are
distinct, there are no more of them than slots in the code, and the walk finds every epilogue within
the bound although it stops after as many instructions as the code has slots.  The measure, which counts
on without looking at registers, counts down along the points of an epilogue (`measure_epilogue?`).
-/

namespace RegisterTransfer

namespace Code

variable {code : Code} {pc q : Point} {r r' : Reg} {points points' : List Point} {bound : Int}
variable {k : Nat} {p : Nat → Point} {ρ : Nat → Reg}

/-! ## The points of an epilogue -/

/-- The points of an epilogue do not depend on its register. -/
theorem Epilogue.points_unique (h : code.Epilogue pc r points) (h' : code.Epilogue pc r' points') :
    points = points' := by
  induction h generalizing r' points' with
  | ret hat _ =>
    cases h' with
    | ret => rfl
    | nop hat' => cases hat.symm.trans hat'
    | move hat' => cases hat.symm.trans hat'
  | nop hat _ ih =>
    cases h' with
    | ret hat' => cases hat.symm.trans hat'
    | nop hat' rest' =>
      cases hat.symm.trans hat'
      rw [ih rest']
    | move hat' => cases hat.symm.trans hat'
  | move hat _ ih =>
    cases h' with
    | ret hat' => cases hat.symm.trans hat'
    | nop hat' => cases hat.symm.trans hat'
    | move hat' rest' =>
      cases hat.symm.trans hat'
      rw [ih rest']

theorem Epilogue.getElem?_zero (h : code.Epilogue pc r points) : points[0]? = some pc := by
  cases h <;> rfl

/-- From each of its points on, an epilogue is one of the register that holds the value there. -/
theorem Epilogue.drop (h : code.Epilogue pc r points) {i : Nat} (hi : points[i]? = some q) :
    ∃ r', code.Epilogue q r' (points.drop i) := by
  induction i generalizing pc r points with
  | zero =>
    cases h.getElem?_zero.symm.trans hi
    exact ⟨r, h⟩
  | succ i ih =>
    cases h with
    | ret => cases hi
    | nop _ rest => exact ih rest hi
    | move _ rest => exact ih rest hi

/-- An epilogue does not come back to its first point. -/
theorem Epilogue.not_mem (h : code.Epilogue pc r (pc :: points))
    (rest : code.Epilogue q r' points) : pc ∉ points := by
  intro hmem
  obtain ⟨i, hi⟩ := List.mem_iff_getElem?.mp hmem
  obtain ⟨_, hagain⟩ := rest.drop hi
  have hlength := congrArg List.length (h.points_unique hagain)
  simp only [List.length_cons, List.length_drop] at hlength
  omega

theorem Epilogue.nodup (h : code.Epilogue pc r points) : points.Nodup := by
  induction h with
  | ret => exact List.nodup_singleton _
  | nop hat rest ih => exact List.nodup_cons.mpr ⟨Epilogue.not_mem (.nop hat rest) rest, ih⟩
  | move hat rest ih => exact List.nodup_cons.mpr ⟨Epilogue.not_mem (.move hat rest) rest, ih⟩

theorem Epilogue.length_pos (h : code.Epilogue pc r points) : 0 < points.length := by
  cases h <;> simp

theorem Epilogue.lt_size (h : code.Epilogue pc r points) : ∀ q ∈ points, q.toNat < code.size := by
  induction h with
  | ret hat _ => simpa using lt_size_of_at? hat
  | nop hat _ ih => exact List.forall_mem_cons.mpr ⟨lt_size_of_at? hat, ih⟩
  | move hat _ ih => exact List.forall_mem_cons.mpr ⟨lt_size_of_at? hat, ih⟩

/-- An epilogue has no more points than the code has slots: they are distinct numbers below its
size. -/
theorem Epilogue.length_le_size (h : code.Epilogue pc r points) : points.length ≤ code.size := by
  have hnodup : (points.map UInt32.toNat).Nodup :=
    h.nodup.map fun _ _ heq => UInt32.toNat_inj.mp heq
  have hsubset : points.map UInt32.toNat ⊆ List.range code.size := by
    intro n hn
    obtain ⟨q, hq, rfl⟩ := List.mem_map.mp hn
    exact List.mem_range.mpr (h.lt_size q hq)
  simpa using (hnodup.subperm hsubset).length_le

/-! ## The walk -/

/-- The walk finds exactly the epilogues within the bound, also where the bound is greater than the
size of the code. -/
theorem epilogue?_eq_some_iff :
    code.epilogue? pc r bound = some points ↔
      code.Epilogue pc r points ∧ (points.length : Int) ≤ bound := by
  rw [epilogue?, walk?_eq_some_iff, reach]
  refine and_congr_right fun h => ?_
  have hpos := h.length_pos
  have hsize := h.length_le_size
  omega

theorem isReturn_iff_epilogue :
    code.isReturn pc r bound ↔
      ∃ points, code.Epilogue pc r points ∧ (points.length : Int) ≤ bound := by
  simp only [isReturn, Option.isSome_iff_exists, epilogue?_eq_some_iff]

/-- Stopping at the size of the code loses no epilogue. -/
theorem epilogue?_eq_walk? (code : Code) (pc : Point) (r : Reg) (bound : Int) :
    code.epilogue? pc r bound = code.walk? bound.toNat pc r := by
  apply Option.ext
  intro points
  rw [epilogue?_eq_some_iff, walk?_eq_some_iff]
  refine and_congr_right fun h => ?_
  have hpos := h.length_pos
  omega

/-! ## Paths -/

/-- A path of `k` instructions from `pc` to a return: instruction `i` stands at point `p i`, and
before it register `ρ i` holds the value that register `r` holds at first. -/
structure ReturnPath (code : Code) (pc : Point) (r : Reg) (k : Nat) (p : Nat → Point)
    (ρ : Nat → Reg) : Prop where
  point : p 0 = pc
  register : ρ 0 = r
  hop : ∀ i < k, (code.at? (p i) = some (.nop (p (i + 1))) ∧ ρ (i + 1) = ρ i) ∨
    code.at? (p i) = some (.op .move [ρ i] (ρ (i + 1)) (p (i + 1)))
  ret : code.at? (p k) = some (.ret none) ∨ code.at? (p k) = some (.ret (some (ρ k)))

/-- The points of a path are those of an epilogue. -/
theorem ReturnPath.epilogue (h : code.ReturnPath pc r k p ρ) :
    code.Epilogue pc r ((List.range (k + 1)).map p) := by
  induction k generalizing pc r p ρ with
  | zero =>
    obtain ⟨rfl, rfl, _, hat | hat⟩ := h
    · exact .ret hat (.inl rfl)
    · exact .ret hat (.inr rfl)
  | succ k ih =>
    obtain ⟨rfl, rfl, hhop, hret⟩ := h
    have hrest : code.ReturnPath (p 1) (ρ 1) k (fun i => p (i + 1)) (fun i => ρ (i + 1)) :=
      ⟨rfl, rfl, fun i hi => hhop (i + 1) (Nat.succ_lt_succ hi), hret⟩
    rw [List.range_succ_eq_map, List.map_cons, List.map_map]
    rcases hhop 0 (Nat.succ_pos k) with ⟨hat, hsame⟩ | hat
    · have hrest' := ih hrest
      rw [hsame] at hrest'
      exact .nop hat hrest'
    · exact .move hat (ih hrest)

/-- A path can be continued to the front. -/
theorem ReturnPath.cons (h : code.ReturnPath q r' k p ρ)
    (hhop : (code.at? pc = some (.nop q) ∧ r' = r) ∨ code.at? pc = some (.op .move [r] r' q)) :
    code.ReturnPath pc r (k + 1) (fun i => if i = 0 then pc else p (i - 1))
      (fun i => if i = 0 then r else ρ (i - 1)) := by
  obtain ⟨rfl, rfl, hhop', hret⟩ := h
  refine ⟨rfl, rfl, fun i hi => ?_, hret⟩
  cases i with
  | zero => exact hhop
  | succ i => exact hhop' i (Nat.lt_of_succ_lt_succ hi)

theorem Epilogue.exists_returnPath (h : code.Epilogue pc r points) :
    ∃ k p ρ, code.ReturnPath pc r k p ρ := by
  induction h with
  | @ret pc r value hat hvalue =>
    refine ⟨0, fun _ => pc, fun _ => r, rfl, rfl, fun i hi => (by cases hi), ?_⟩
    rcases hvalue with rfl | rfl
    · exact .inl hat
    · exact .inr hat
  | nop hat _ ih =>
    obtain ⟨k, p, ρ, hpath⟩ := ih
    exact ⟨k + 1, _, _, hpath.cons (.inl ⟨hat, rfl⟩)⟩
  | move hat _ ih =>
    obtain ⟨k, p, ρ, hpath⟩ := ih
    exact ⟨k + 1, _, _, hpath.cons (.inr hat)⟩

theorem ReturnPath.epilogue? (h : code.ReturnPath pc r k p ρ) (hk : (k : Int) < bound) :
    code.epilogue? pc r bound = some ((List.range (k + 1)).map p) := by
  rw [epilogue?_eq_some_iff]
  exact ⟨h.epilogue, by simpa using Int.add_one_le_of_lt hk⟩

theorem isReturn_iff_returnPath :
    code.isReturn pc r bound ↔
      ∃ (k : Nat) (p : Nat → Point) (ρ : Nat → Reg),
        (k : Int) < bound ∧ code.ReturnPath pc r k p ρ := by
  rw [isReturn_iff_epilogue]
  constructor
  · rintro ⟨points, hepilogue, hlength⟩
    obtain ⟨k, p, ρ, h⟩ := hepilogue.exists_returnPath
    obtain rfl := hepilogue.points_unique h.epilogue
    simp only [List.length_map, List.length_range] at hlength
    exact ⟨k, p, ρ, by omega, h⟩
  · rintro ⟨k, p, ρ, hk, h⟩
    exact ⟨_, h.epilogue, by simpa using Int.add_one_le_of_lt hk⟩

/-- The walk recognizes exactly the paths to a return that have fewer than `bound` instructions before
it.  The points of such a path are the epilogue that is found, they are distinct, and there are no more
of them than slots in the code; so neither the size of the code nor a greater bound excludes a path. -/
theorem epilogue?_exact (code : Code) (pc : Point) (r : Reg) (bound : Int) :
    (code.isReturn pc r bound ↔
      ∃ (k : Nat) (p : Nat → Point) (ρ : Nat → Reg),
        (k : Int) < bound ∧ code.ReturnPath pc r k p ρ) ∧
    (∀ (k : Nat) (p : Nat → Point) (ρ : Nat → Reg),
      (k : Int) < bound → code.ReturnPath pc r k p ρ →
        code.epilogue? pc r bound = some ((List.range (k + 1)).map p) ∧
        ((List.range (k + 1)).map p).Nodup ∧ k < code.size) ∧
    (¬ code.isReturn pc r bound → code.epilogue? pc r bound = none) ∧
    code.epilogue? pc r bound = code.walk? bound.toNat pc r ∧
    ∀ bound', bound ≤ bound' → code.isReturn pc r bound → code.isReturn pc r bound' := by
  refine ⟨isReturn_iff_returnPath, fun k p ρ hk h => ⟨h.epilogue? hk, h.epilogue.nodup, ?_⟩, ?_,
    epilogue?_eq_walk? code pc r bound, fun bound' hle => ?_⟩
  · have hsize := h.epilogue.length_le_size
    simp only [List.length_map, List.length_range] at hsize
    exact hsize
  · simp [isReturn]
  · rw [isReturn_iff_returnPath, isReturn_iff_returnPath]
    rintro ⟨k, p, ρ, hk, h⟩
    exact ⟨k, p, ρ, Int.lt_of_lt_of_le hk hle, h⟩

/-- Code that moves register `1` into register `2` and back before it returns it, and an instruction
that goes to itself. -/
def winding : Code :=
  ⟨#[some (.nop 1), some (.op .move [1] 2 2), some (.op .move [2] 1 3), some (.ret (some 1)),
    some (.nop 4)]⟩

/-- The path of `winding` has three instructions before its return: it is found under every bound
greater than that, also under one greater than the size of the code.  The instruction that goes to
itself has no epilogue. -/
theorem epilogue?_exact_winding :
    winding.ReturnPath 0 1 3 UInt32.ofNat (fun i => if i = 2 then 2 else 1) ∧
    winding.epilogue? 0 1 4 = some [0, 1, 2, 3] ∧ winding.isReturn 0 1 1000000 ∧
    winding.epilogue? 0 1 3 = none ∧ winding.epilogue? 4 1 1000000 = none := by
  have hpath : winding.ReturnPath 0 1 3 UInt32.ofNat (fun i => if i = 2 then 2 else 1) :=
    ⟨rfl, rfl, by decide, by decide⟩
  obtain ⟨hreturn, hepilogue, _, _, hmono⟩ := epilogue?_exact winding 0 1 4
  obtain ⟨_, _, hshort, _⟩ := epilogue?_exact winding 0 1 3
  obtain ⟨_, _, hloop, _⟩ := epilogue?_exact winding 4 1 1000000
  refine ⟨hpath, (hepilogue 3 _ _ (by decide) hpath).1, ?_, hshort (by decide), hloop (by decide)⟩
  exact hmono _ (by decide) (hreturn.mpr ⟨3, _, _, by decide, hpath⟩)

/-! ## The measure along an epilogue -/

/-- The measure at a point of an epilogue within the bound counts the points that follow it.  The rest
of the epilogue is one itself, though of another register, and the measure takes no account of registers. -/
theorem Epilogue.measure_getElem? (h : code.Epilogue pc r points)
    (hlength : points.length ≤ code.reach bound) {i : Nat} (hi : points[i]? = some q) :
    code.measure q bound + i + 1 = points.length := by
  obtain ⟨_, hrest⟩ := h.drop hi
  obtain ⟨hlt, _⟩ := List.getElem?_eq_some_iff.mp hi
  have hdrop : (points.drop i).length ≤ code.reach bound :=
    Nat.le_trans (List.drop_sublist i points).length_le hlength
  have hmeasure : code.measure q bound + 1 = (points.drop i).length := hrest.straight hdrop
  rw [List.length_drop] at hmeasure
  omega

/-- The measure counts an epilogue down: at each point it is the number of points that follow, so each
step decreases it by exactly one, and it is zero at the return. -/
theorem measure_epilogue? (h : code.epilogue? pc r bound = some points) :
    ∃ k, points.length = k + 1 ∧
      (∀ i q, points[i]? = some q → i ≤ k ∧ code.measure q bound = k - i) ∧
      ∀ i q q', points[i]? = some q → points[i + 1]? = some q' →
        code.measure q bound = code.measure q' bound + 1 := by
  obtain ⟨hepilogue, hlength⟩ := walk?_eq_some_iff.mp h
  have hpos := hepilogue.length_pos
  refine ⟨points.length - 1, by omega, fun i q hi => ?_, fun i q q' hi hi' => ?_⟩
  · have hmeasure := hepilogue.measure_getElem? hlength hi
    omega
  · have hmeasure := hepilogue.measure_getElem? hlength hi
    have hmeasure' := hepilogue.measure_getElem? hlength hi'
    omega

/-- The epilogue of `winding` is counted down from three, under the least bound that it is found under
as under a greater one. -/
theorem measure_epilogue?_winding :
    winding.epilogue? 0 1 4 = some [0, 1, 2, 3] ∧
    (winding.measure 0 4 = 3 ∧ winding.measure 1 4 = 2 ∧ winding.measure 2 4 = 1 ∧
      winding.measure 3 4 = 0) ∧
    winding.measure 1 1000000 = winding.measure 2 1000000 + 1 := by
  have hfound : winding.epilogue? 0 1 4 = some [0, 1, 2, 3] := by decide
  obtain ⟨k, hk, hcount, _⟩ := measure_epilogue? hfound
  obtain ⟨_, _, _, hstep⟩ :=
    measure_epilogue? (show winding.epilogue? 0 1 1000000 = some [0, 1, 2, 3] by decide)
  obtain rfl : k = 3 := (Nat.succ.inj hk).symm
  exact ⟨hfound, ⟨(hcount 0 0 rfl).2, (hcount 1 1 rfl).2, (hcount 2 2 rfl).2, (hcount 3 3 rfl).2⟩,
    hstep 1 1 2 rfl rfl⟩

end Code

end RegisterTransfer
