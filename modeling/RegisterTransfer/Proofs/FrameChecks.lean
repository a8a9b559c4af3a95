import RegisterTransfer.Proofs.MemoryExtension
import RegisterTransfer.Simulation.Frame
set_option autoImplicit false

/-!
# Checks of frames

What the checks of frames look for, said without the order in which they are made, and which memory
operations keep it.  The block of a function is below a bound, live, and as large as the function's
stack (`Memory.Holds`); the blocks of a stack are all so below the next block, and increase from the
outermost frame to the innermost (`Memory.Carries`).
-/

namespace RegisterTransfer

namespace Memory

variable {m : Memory} {name : String} {stackSize : Int64} {b bound caller : Block}

/-- A live block below a bound, with the size of a function's stack between its bounds. -/
structure Holds (m : Memory) (stackSize : Int64) (b bound : Block) : Prop where
  below : b < bound
  region : ∃ lo hi cells, m.region? b = some ⟨lo, hi, some cells⟩ ∧ hi - lo = stackSize

theorem Holds.live (h : m.Holds stackSize b bound) : m.live b := by
  obtain ⟨lo, hi, cells, hr, _⟩ := h.region
  exact live_iff.mpr ⟨lo, hi, cells, hr⟩

theorem Holds.ne_zero (h : m.Holds stackSize b bound) : b ≠ 0 := by
  obtain ⟨lo, hi, cells, hr, _⟩ := h.region
  exact ne_zero_of_region? hr

/-- The check of a frame finds nothing where the block is as it must be. -/
theorem frameError?_eq_none_iff :
    m.frameError? name stackSize b bound = none ↔ m.Holds stackSize b bound := by
  unfold frameError?
  constructor
  · intro h
    split at h
    · cases h
    · rename_i hbelow
      split at h
      · cases h
      · split at h
        · cases h
        · rename_i hlive
          split at h
          · cases h
          · rename_i hsize
            rw [Bool.not_eq_true', Bool.not_eq_false] at hlive
            obtain ⟨lo, hi, cells, hr⟩ := live_iff.mp hlive
            refine ⟨UInt32.not_le.mp hbelow, lo, hi, cells, hr, ?_⟩
            simpa [size, bounds?, hr] using hsize
  · rintro ⟨hbelow, lo, hi, cells, hr, hsize⟩
    simp [UInt32.not_le.mpr hbelow, valid, live, size, bounds?, hr, hsize]

/-- The check of a stack finds nothing where every block is as it must be and the blocks increase
from above the caller's. -/
theorem framesError?_eq_none_iff {blocks : List (Function × Block)} :
    m.framesError? caller blocks = none ↔
      (∀ f b, (f, b) ∈ blocks → m.Holds f.stackSize b m.next) ∧
        blocks.Pairwise (fun x y => x.2 < y.2) ∧ ∀ x ∈ blocks, caller < x.2 := by
  induction blocks generalizing caller with
  | nil => simp [framesError?]
  | cons x rest ih =>
    obtain ⟨f, b⟩ := x
    cases hframe : m.frameError? f.name f.stackSize b m.next with
    | some e =>
      simp only [framesError?, hframe, reduceCtorEq, false_iff]
      rintro ⟨hholds, _⟩
      rw [frameError?_eq_none_iff.mpr (hholds f b List.mem_cons_self)] at hframe
      cases hframe
    | none =>
      have hholds := frameError?_eq_none_iff.mp hframe
      by_cases hcaller : b ≤ caller
      · simp only [framesError?, hframe, hcaller, if_true, reduceCtorEq, false_iff]
        rintro ⟨_, _, habove⟩
        exact UInt32.not_le.mpr (habove (f, b) List.mem_cons_self) hcaller
      · simp only [framesError?, hframe, hcaller, if_false, ih, List.pairwise_cons]
        have hlt := UInt32.not_le.mp hcaller
        constructor
        · rintro ⟨hrest, hsorted, habove⟩
          refine ⟨?_, ⟨habove, hsorted⟩, ?_⟩
          · intro f' b' hmem
            rcases List.mem_cons.mp hmem with heq | hmem
            · cases heq
              exact hholds
            · exact hrest f' b' hmem
          · intro y hy
            rcases List.mem_cons.mp hy with rfl | hy
            · exact hlt
            · exact UInt32.lt_trans hlt (habove y hy)
        · rintro ⟨hall, ⟨habove, hsorted⟩, _⟩
          exact ⟨fun f' b' hmem => hall f' b' (List.mem_cons_of_mem _ hmem), hsorted, habove⟩

/-! ## New blocks -/

theorem toNat_next (hsize : m.regions.size + 1 < 2 ^ 32) : m.next.toNat = m.regions.size + 1 := by
  simp only [next, UInt32.toNat_ofNat']
  omega

/-- Allocated blocks are below the next one. -/
theorem lt_next_of_region? (hsize : m.regions.size + 1 < 2 ^ 32) {r : Region}
    (hr : m.region? b = some r) : b < m.next := by
  have hle := toNat_le_of_region? hr
  rw [UInt32.lt_iff_toNat_lt, toNat_next hsize]
  omega

theorem region?_alloc_next (hsize : m.regions.size + 1 < 2 ^ 32) (lo hi : Int64) :
    (m.alloc lo hi).1.region? m.next = some ⟨lo, hi, some ∅⟩ := by
  have hnext := toNat_next hsize
  rw [region?_eq_some_iff]
  refine ⟨fun e => ?_, ?_⟩
  · rw [e] at hnext
    simp at hnext
  · simp [alloc, hnext]

theorem region?_alloc_ne (hsize : m.regions.size + 1 < 2 ^ 32) (lo hi : Int64) {b : Block}
    (h : b ≠ m.next) : (m.alloc lo hi).1.region? b = m.region? b := by
  have hnext := toNat_next hsize
  have hne : b.toNat ≠ m.next.toNat := fun e => h (UInt32.toNat_inj.mp e)
  unfold region?
  split
  · rfl
  · rename_i hb
    have hpos : b.toNat ≠ 0 := fun e => hb (UInt32.toNat_inj.mp e)
    rw [alloc, Array.getElem?_push, if_neg (by omega)]

/-- A block that was allocated stays what it is, also where the number of the next one is not new. -/
theorem region?_alloc_of_region? {r : Region} (hr : m.region? b = some r) (lo hi : Int64) :
    (m.alloc lo hi).1.region? b = some r := by
  obtain ⟨hb, hget⟩ := region?_eq_some_iff.mp hr
  obtain ⟨hlt, _⟩ := Array.getElem?_eq_some_iff.mp hget
  refine region?_eq_some_iff.mpr ⟨hb, ?_⟩
  rw [alloc, Array.getElem?_push, if_neg (by omega)]
  exact hget

/-! ## Operations -/

variable {m' : Memory} {frames : List (Function × Block)} {f : Function} {sp : Block}

/-- A store changes neither the bounds of a block nor whether it is live. -/
theorem Holds.store (h : m.Holds stackSize b bound) {c : Chunk} {b' : Block} {ofs : Int64} {v : Val}
    (hstore : m.store c b' ofs v = .ok m') : m'.Holds stackSize b bound := by
  obtain ⟨lo, hi, cells, hr, hsize⟩ := h.region
  obtain ⟨cells', hr'⟩ := exists_region?_store hstore hr
  exact ⟨h.below, lo, hi, cells', hr', hsize⟩

/-- Only its own block is lost to a function when a block is freed. -/
theorem Holds.free (h : m.Holds stackSize b bound) {b' : Block} (hfree : m.free b' = .ok m')
    (hne : b ≠ b') : m'.Holds stackSize b bound := by
  obtain ⟨lo, hi, cells, hr, hsize⟩ := h.region
  exact ⟨h.below, lo, hi, cells, (region?_free_ne hfree hne).trans hr, hsize⟩

/-- An allocation leaves the blocks that there are alone. -/
theorem Holds.alloc (h : m.Holds stackSize b bound) (lo hi : Int64) :
    (m.alloc lo hi).1.Holds stackSize b bound := by
  obtain ⟨lo', hi', cells, hr, hstack⟩ := h.region
  exact ⟨h.below, lo', hi', cells, region?_alloc_of_region? hr lo hi, hstack⟩

/-! ## Stacks -/

/-- The blocks of a list of active functions, the innermost first: each is as it must be below the
next block, and greater than those that follow it. -/
structure Carries (m : Memory) (frames : List (Function × Block)) : Prop where
  holds : ∀ f b, (f, b) ∈ frames → m.Holds f.stackSize b m.next
  sorted : frames.Pairwise fun x y => y.2 < x.2

/-- The check of a stack finds nothing where its blocks, the innermost first, are carried. -/
theorem framesError?_reverse_eq_none_iff :
    m.framesError? 0 frames.reverse = none ↔ m.Carries frames := by
  rw [framesError?_eq_none_iff, List.pairwise_reverse]
  simp only [List.mem_reverse]
  constructor
  · rintro ⟨hholds, hsorted, _⟩
    exact ⟨hholds, hsorted⟩
  · rintro ⟨hholds, hsorted⟩
    refine ⟨hholds, hsorted, ?_⟩
    rintro ⟨f, b⟩ hmem
    exact UInt32.pos_iff_ne_zero.mpr (hholds f b hmem).ne_zero

theorem Carries.store (h : m.Carries frames) {c : Chunk} {ofs : Int64} {v : Val}
    (hstore : m.store c b ofs v = .ok m') : m'.Carries frames := by
  have hnext : m'.next = m.next := by rw [next, size_store hstore, next]
  refine ⟨fun f b' hmem => ?_, h.sorted⟩
  rw [hnext]
  exact (h.holds f b' hmem).store hstore

/-- The innermost function takes its block with it; the others have lesser ones. -/
theorem Carries.free (h : m.Carries ((f, sp) :: frames)) (hfree : m.free sp = .ok m') :
    m'.Carries frames := by
  have hnext : m'.next = m.next := by rw [next, size_free hfree, next]
  obtain ⟨hinner, hsorted⟩ := List.pairwise_cons.mp h.sorted
  refine ⟨fun f' b' hmem => ?_, hsorted⟩
  rw [hnext]
  exact (h.holds f' b' (List.mem_cons_of_mem _ hmem)).free hfree (UInt32.ne_of_lt (hinner _ hmem))

/-- A function that is entered gets a new block, greater than all others. -/
theorem Carries.alloc (h : m.Carries frames) (hsize : m.regions.size + 2 < 2 ^ 32) (f : Function) :
    (m.alloc 0 f.stackSize).1.Carries ((f, m.next) :: frames) := by
  have hsize' : m.regions.size + 1 < 2 ^ 32 := by omega
  have hnext : m.next < (m.alloc 0 f.stackSize).1.next := by
    have hgrown : (m.alloc 0 f.stackSize).1.regions.size = m.regions.size + 1 := by
      simp [Memory.alloc]
    rw [UInt32.lt_iff_toNat_lt, toNat_next hsize', toNat_next (by omega), hgrown]
    omega
  refine ⟨fun f' b hmem => ?_, List.pairwise_cons.mpr ⟨fun x hx => ?_, h.sorted⟩⟩
  · rcases List.mem_cons.mp hmem with heq | hmem
    · cases heq
      exact ⟨hnext, 0, f.stackSize, ∅, region?_alloc_next hsize' _ _, by simp⟩
    · have hold := (h.holds f' b hmem).alloc 0 f.stackSize
      exact ⟨UInt32.lt_trans hold.below hnext, hold.region⟩
  · exact (h.holds x.1 x.2 hx).below

end Memory

end RegisterTransfer
