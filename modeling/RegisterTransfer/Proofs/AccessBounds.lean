import RegisterTransfer.Proofs.Reachability
set_option autoImplicit false

/-!
# Which accesses succeed

The end of an access is computed with wrapping offsets and then compared with the upper bound of the
block.  An offset that is a multiple of the access's size is at most one such size away from the
first number past the last offset, so the end wraps around in exactly one case: where it is that
number.  An access at this last place passes the check of every live block that it does not precede,
one without room included; every other access that succeeds lies within the bounds.
-/

namespace RegisterTransfer

namespace Chunk

theorem rem_size_eq_zero_iff (c : Chunk) (ofs : Int64) :
    ofs % c.size = 0 ↔ c.size.toInt ∣ ofs.toInt := by
  rw [← Int64.toInt_inj, Int64.toInt_mod, Int64.toInt_zero]
  exact Int.dvd_iff_tmod_eq_zero.symm

/-- The end of an aligned access is exact, unless it is the first number past the last offset. -/
theorem toInt_end {c : Chunk} {ofs : Int64} (haligned : c.size.toInt ∣ ofs.toInt) :
    ofs.toInt + c.size.toInt = 2 ^ 63 ∧ (ofs + c.size).toInt = -2 ^ 63 ∨
      ofs.toInt + c.size.toInt < 2 ^ 63 ∧ (ofs + c.size).toInt = ofs.toInt + c.size.toInt := by
  have hlow := Int64.le_toInt ofs
  have hhigh := Int64.toInt_lt ofs
  have hsize := c.toInt_size
  obtain ⟨q, hq⟩ := haligned
  -- Both sizes divide `2 ^ 63`, so a multiple below it leaves room for one size.
  have hend : ofs.toInt + c.size.toInt ≤ 2 ^ 63 := by
    rcases hsize with h | h
    · rw [h] at hq ⊢
      omega
    · rw [h] at hq ⊢
      omega
  rw [Int64.toInt_add]
  rcases Int.lt_or_eq_of_le hend with hlt | heq
  · right
    exact ⟨hlt, Int.bmod_eq_of_le (by omega) (by omega)⟩
  · left
    refine ⟨heq, ?_⟩
    rw [heq]
    decide

end Chunk

namespace Memory

/-- The check of an access in exact numbers. -/
theorem fits_iff {lo hi ofs : Int64} {c : Chunk} :
    Fits lo hi c ofs ↔ lo.toInt ≤ ofs.toInt ∧ c.size.toInt ∣ ofs.toInt ∧
      (ofs.toInt + c.size.toInt ≤ hi.toInt ∨ ofs.toInt + c.size.toInt = 2 ^ 63) := by
  unfold Fits
  rw [not_or, Int64.not_lt, Int64.not_lt, Int64.le_iff_toInt_le, Int64.le_iff_toInt_le,
    Chunk.rem_size_eq_zero_iff, and_assoc]
  have hhigh := Int64.toInt_lt hi
  have hlow := Int64.le_toInt hi
  constructor
  · rintro ⟨hlo, hhi, haligned⟩
    refine ⟨hlo, haligned, ?_⟩
    rcases Chunk.toInt_end haligned with ⟨heq, _⟩ | ⟨_, hexact⟩
    · exact .inr heq
    · rw [hexact] at hhi
      exact .inl hhi
  · rintro ⟨hlo, haligned, hend⟩
    refine ⟨hlo, ?_, haligned⟩
    rcases Chunk.toInt_end haligned with ⟨_, hwraps⟩ | ⟨hlt, hexact⟩
    · omega
    · omega

/-- An access to a block without room can only be the one that ends past the last offset. -/
theorem end_eq_of_fits_self {lo ofs : Int64} {c : Chunk} (h : Fits lo lo c ofs) :
    ofs.toInt + c.size.toInt = 2 ^ 63 := by
  obtain ⟨hlo, _, hend⟩ := fits_iff.mp h
  have hsize := c.toInt_size
  omega

theorem exists_access_iff {m : Memory} {c : Chunk} {b : Block} {ofs : Int64} :
    (∃ cells, m.access c b ofs = .ok cells) ↔
      m.live b ∧ ∃ lo hi, m.bounds? b = some (lo, hi) ∧ Fits lo hi c ofs := by
  constructor
  · rintro ⟨cells, h⟩
    obtain ⟨lo, hi, hr, hfits⟩ := access_eq_ok_iff.mp h
    refine ⟨live_iff.mpr ⟨lo, hi, cells, hr⟩, lo, hi, ?_, hfits⟩
    simp [bounds?, hr]
  · rintro ⟨hlive, lo, hi, hbounds, hfits⟩
    obtain ⟨lo', hi', cells, hr⟩ := live_iff.mp hlive
    simp only [bounds?, hr, Option.map_some, Option.some.injEq, Prod.mk.injEq] at hbounds
    obtain ⟨rfl, rfl⟩ := hbounds
    exact ⟨cells, access_eq_ok_iff.mpr ⟨_, _, hr, hfits⟩⟩

end Memory

namespace State

variable {p : Program} {externals : Externals} {s : State} {c : Chunk} {b : Block} {ofs : Int64}

/-- The chunk, the block and the offset of the load or store that a state is about to make. -/
def access? (s : State) : Option (Chunk × Block × Int64) :=
  match s.control with
  | .running f sp pc regs =>
    (f.code.at? pc).bind fun i => i.access?.bind fun x =>
      (x.2.1.eval? sp (regs.list x.2.2)).map fun address => (x.1, address.1, address.2)
  | _ => none

theorem access?_eq_some_iff :
    s.access? = some (c, b, ofs) ↔
      ∃ f sp pc regs i a args, s.control = .running f sp pc regs ∧ f.code.at? pc = some i ∧
        i.access? = some (c, a, args) ∧ a.eval? sp (regs.list args) = some (b, ofs) := by
  obtain ⟨stack, m, control⟩ := s
  cases control with
  | running f sp pc regs =>
    simp only [access?, Option.bind_eq_some_iff, Option.map_eq_some_iff, Prod.exists,
      Prod.mk.injEq]
    constructor
    · rintro ⟨i, hi, c', a, args, haccess, b', ofs', heval, rfl, rfl, rfl⟩
      exact ⟨f, sp, pc, regs, i, a, args, rfl, hi, haccess, heval⟩
    · rintro ⟨_, _, _, _, i, a, args, hcontrol, hi, haccess, heval⟩
      cases hcontrol
      exact ⟨i, hi, c, a, args, haccess, b, ofs, heval, rfl, rfl, rfl⟩
  | calling callee args => simp [access?]
  | returning v => simp [access?]

/-- A state that is about to load or store has a successor exactly if the memory grants the access. -/
theorem exists_step_iff_of_access? (h : s.access? = some (c, b, ofs)) :
    (∃ s' e, s.step p externals = .ok (s', e)) ↔
      ∃ cells, s.memory.access c b ofs = .ok cells := by
  obtain ⟨f, sp, pc, regs, i, a, args, hcontrol, hi, haccess, heval⟩ := access?_eq_some_iff.mp h
  obtain ⟨stack, m, control⟩ := s
  subst hcontrol
  constructor
  · rintro ⟨s', e, hstep⟩
    cases hmemory : m.access c b ofs with
    | ok cells => exact ⟨cells, rfl⟩
    | error e =>
      have hfault : i.Fault p m sp regs (.memory e) := .access haccess heval hmemory
      rw [step_running_error_iff.mpr (.inr ⟨i, hi, hfault⟩)] at hstep
      cases hstep
  · rintro ⟨cells, hcells⟩
    cases i with
    | load c' a' args' dest succ =>
      cases haccess
      obtain ⟨lo, hi', hr, hfits⟩ := Memory.access_eq_ok_iff.mp hcells
      have hload := Memory.load_eq_ok_iff.mpr ⟨lo, hi', cells, hr, hfits, rfl⟩
      exact ⟨_, none, step_running_iff.mpr
        ⟨rfl, _, hi, Instr.execute_load_iff.mpr ⟨b, ofs, heval, _, hload, rfl⟩⟩⟩
    | store c' a' args' src succ =>
      cases haccess
      obtain ⟨lo, hi', hr, hfits⟩ := Memory.access_eq_ok_iff.mp hcells
      have hstore : m.store c b ofs (regs.get src) = .ok _ :=
        Memory.store_eq_ok_iff.mpr ⟨lo, hi', cells, hr, hfits, rfl⟩
      exact ⟨_, none, step_running_iff.mpr
        ⟨rfl, _, hi, Instr.execute_store_iff.mpr ⟨b, ofs, heval, _, hstore, rfl⟩⟩⟩
    | _ => cases haccess

/-- A load or a store succeeds exactly if its block is live, its offset is a multiple of its size and
not below the block's lower bound, and its end is not above the upper one or is the first number past
the last offset.  So in a block without room none succeeds but that last one. -/
theorem step_iff_of_access? (h : s.access? = some (c, b, ofs)) :
    ((∃ s' e, s.step p externals = .ok (s', e)) ↔
      s.memory.live b ∧ ∃ lo hi, s.memory.bounds? b = some (lo, hi) ∧ lo.toInt ≤ ofs.toInt ∧
        c.size.toInt ∣ ofs.toInt ∧
        (ofs.toInt + c.size.toInt ≤ hi.toInt ∨ ofs.toInt + c.size.toInt = 2 ^ 63)) ∧
    ∀ lo s' e, s.memory.bounds? b = some (lo, lo) → s.step p externals = .ok (s', e) →
      ofs.toInt + c.size.toInt = 2 ^ 63 := by
  constructor
  · rw [exists_step_iff_of_access? h, Memory.exists_access_iff]
    simp only [Memory.fits_iff]
  · intro lo s' e hbounds hstep
    have haccess := (exists_step_iff_of_access? h).mp ⟨s', e, hstep⟩
    obtain ⟨_, lo', hi', hbounds', hfits⟩ := Memory.exists_access_iff.mp haccess
    cases hbounds.symm.trans hbounds'
    exact Memory.end_eq_of_fits_self hfits

end State

namespace Program

/-- A program whose `main` has no room on the stack and stores at the last multiple of four. -/
def overrun : Program where
  main := "main"
  functions := .ofList [
    ("main", some ⟨"main", ⟨[], .int, false⟩, [], 0, 0, ⟨#[
      some (.op (.intConst 5) [] 1 1),
      some (.store .int32 (.stack 9223372036854775804) [] 1 2),
      some (.load .int32 (.stack 9223372036854775804) [] 2 3),
      some (.ret (some 2))]⟩⟩)]

/-- The program is well formed, its second step is a store into a block without room, and the store
succeeds. -/
theorem overrun_store_succeeds :
    overrun.Wellformed ∧
    ∃ s s', overrun.after (External.sums []) 2 = .ok (s, []) ∧
      s.access? = some (.int32, 1, 9223372036854775804) ∧ s.memory.bounds? 1 = some (0, 0) ∧
      s.step overrun (External.sums []) = .ok (s', none) :=
  ⟨by decide +kernel, _, _, rfl, rfl, rfl, rfl⟩

/-- That store ends at the first number past the last offset, as it must. -/
theorem step_iff_of_access?_overrun :
    ∃ s, overrun.after (External.sums []) 2 = .ok (s, []) ∧
      s.access? = some (.int32, 1, 9223372036854775804) ∧ s.memory.bounds? 1 = some (0, 0) ∧
      (∃ s' e, s.step overrun (External.sums []) = .ok (s', e)) ∧
      (9223372036854775804 : Int64).toInt + Chunk.int32.size.toInt = 2 ^ 63 := by
  have hlast : ∀ s : State, s.access? = some (.int32, 1, 9223372036854775804) → s.memory.live 1 →
      s.memory.bounds? 1 = some (0, 0) →
      (∃ s' e, s.step overrun (External.sums []) = .ok (s', e)) ∧
        (9223372036854775804 : Int64).toInt + Chunk.int32.size.toInt = 2 ^ 63 := by
    intro s haccess hlive hbounds
    obtain ⟨hiff, hroom⟩ := State.step_iff_of_access? haccess
    obtain ⟨s', e, hstep⟩ :=
      hiff.mpr ⟨hlive, 0, 0, hbounds, by decide, by decide, .inr (by decide)⟩
    exact ⟨⟨s', e, hstep⟩, hroom 0 s' e hbounds hstep⟩
  exact ⟨_, rfl, rfl, rfl, hlast _ rfl rfl rfl⟩

end Program

end RegisterTransfer
