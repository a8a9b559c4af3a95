import RegisterTransfer.Proofs.MemoryRequests
set_option autoImplicit false

/-!
# Operations on memories that extend each other

Where one memory extends another, each operation on the lesser one can be followed by the greater
one: by the same operation, or, where the greater memory has freed a block without room in advance,
by none.  This holds of all memories but for one thing.  `Memory.Extends` compares the numbers of the
next blocks, which have 32 bits; so a memory that has used all of them once extends the empty one, and
blocks that both allocate then stand in different places (`Memory.alloc_not_extends_exhausted`).
Allocation keeps the extension exactly where both memories have equally many blocks.
-/

namespace RegisterTransfer

namespace Memory

variable {m n : Memory}

/-! ## Allocation -/

/-- A memory has no more blocks than those that extend it. -/
theorem Extends.size_le (h : m.Extends n) : m.regions.size ≤ n.regions.size := by
  obtain ⟨_, hregions⟩ := extends_iff.mp h
  by_contra hlt
  have hlast : n.regions.size < m.regions.size := Nat.lt_of_not_le hlt
  obtain ⟨s, hs, _⟩ := hregions _ _ (Array.getElem?_eq_getElem hlast)
  obtain ⟨hself, _⟩ := Array.getElem?_eq_some_iff.mp hs
  exact Nat.lt_irrefl _ hself

/-- As long as the greater memory has not used a number twice, both have equally many blocks. -/
theorem Extends.size_eq_of_lt (h : m.Extends n) (hn : n.regions.size < 2 ^ 32) :
    m.regions.size = n.regions.size := by
  have hle := h.size_le
  have heq : m.next.toNat = n.next.toNat := congrArg UInt32.toNat h.next_eq
  simp only [next, UInt32.toNat_ofNat'] at heq
  omega

/-- A new block of the lesser memory is compared with the block that stands in its place in the greater
one.  Where this one is not new too, some bounds tell the two apart. -/
theorem Extends.exists_not_extends_alloc (h : m.Extends n)
    (hsize : m.regions.size ≠ n.regions.size) :
    ∃ lo hi, ¬ (m.alloc lo hi).1.Extends (n.alloc lo hi).1 := by
  have hlt : m.regions.size < n.regions.size := Nat.lt_of_le_of_ne h.size_le hsize
  obtain ⟨⟨lo, hi, cells⟩, hs⟩ : ∃ s, n.regions[m.regions.size]? = some s :=
    ⟨_, Array.getElem?_eq_getElem hlt⟩
  have hshift : lo + 1 ≠ lo := by simp
  refine ⟨lo + 1, lo, fun hextends => ?_⟩
  obtain ⟨s, hs', hrs⟩ := (extends_iff.mp hextends).2 m.regions.size ⟨lo + 1, lo, some ∅⟩
    (by simp [alloc])
  have hsame : (n.alloc (lo + 1) lo).1.regions[m.regions.size]? = n.regions[m.regions.size]? := by
    simp [alloc, Array.getElem?_push, Nat.ne_of_lt hlt]
  rw [hsame, hs] at hs'
  cases hs'
  cases cells with
  | none => exact hshift hrs.symm
  | some cells => exact hshift hrs.1

theorem Extends.alloc_iff (h : m.Extends n) :
    (∀ lo hi, (m.alloc lo hi).1.Extends (n.alloc lo hi).1) ↔
      m.regions.size = n.regions.size := by
  constructor
  · intro hkept
    by_contra hsize
    obtain ⟨lo, hi, hlost⟩ := h.exists_not_extends_alloc hsize
    exact hlost (hkept lo hi)
  · intro hsize lo hi
    exact ((lessDefined_iff.mpr ⟨h, hsize⟩).alloc lo hi).1.extends

/-! ## All operations -/

/-- A block that is live in both memories, without room, may be freed in the greater one. -/
theorem Extends.free_right_of_bounds? (h : m.Extends n) {b : Block} {lo : Int64} (hlive : m.live b)
    (hlive' : n.live b) (hbounds : m.bounds? b = some (lo, lo)) :
    ∃ n', n.free b = .ok n' ∧ m.Extends n' := by
  obtain ⟨lo', hi', cells, hr⟩ := live_iff.mp hlive
  simp only [bounds?, hr, Option.map_some, Option.some.injEq, Prod.mk.injEq] at hbounds
  obtain ⟨rfl, rfl⟩ := hbounds
  exact h.free_right hr hlive'

/-- Of any two memories the second of which extends the first, both allocate the same block.  The
extension is kept then, whatever the bounds, exactly if both have equally many blocks, as is the case if
the second has fewer than there are numbers for them.  The second can free what the first frees, unless
it has freed it before, and may free a block without room in advance; it can store at least as defined a
value where the first stores one; all of this keeps the extension.  Where the first loads a value the
second loads one at least as defined. -/
theorem extends_simulation (h : m.Extends n) :
    ((∀ lo hi, (m.alloc lo hi).2 = (n.alloc lo hi).2) ∧
      ((∀ lo hi, (m.alloc lo hi).1.Extends (n.alloc lo hi).1) ↔
        m.regions.size = n.regions.size) ∧
      (n.regions.size < 2 ^ 32 → m.regions.size = n.regions.size)) ∧
    (∀ b m', m.free b = .ok m' →
      (n.live b → ∃ n', n.free b = .ok n' ∧ m'.Extends n') ∧ (¬ n.live b → m'.Extends n)) ∧
    (∀ b lo, m.live b → n.live b → m.bounds? b = some (lo, lo) →
      ∃ n', n.free b = .ok n' ∧ m.Extends n') ∧
    (∀ c b ofs v w m', m.store c b ofs v = .ok m' → v.lessDefined w →
      ofs.toInt + c.size.toInt ≤ 2 ^ 63 - 1 → ∃ n', n.store c b ofs w = .ok n' ∧ m'.Extends n') ∧
    (∀ c b ofs v, m.load c b ofs = .ok v → ofs.toInt + c.size.toInt ≤ 2 ^ 63 - 1 →
      ∃ w, n.load c b ofs = .ok w ∧ v.lessDefined w) := by
  refine ⟨⟨fun _ _ => h.next_eq, h.alloc_iff, h.size_eq_of_lt⟩,
    fun b m' hfree => ⟨h.free hfree, h.free_left hfree⟩,
    fun b lo => h.free_right_of_bounds?, ?_, ?_⟩
  · intro c b ofs v w m' hstore hv hend
    obtain ⟨lo, hi, cells, hr, hfits, _⟩ := store_eq_ok_iff.mp hstore
    exact h.store hstore hv (h.live hr hfits hend)
  · intro c b ofs v hload hend
    obtain ⟨lo, hi, cells, hr, hfits, _⟩ := load_eq_ok_iff.mp hload
    exact h.load hload (h.live hr hfits hend)

/-- A block of sixteen bytes between two without room, into which a long number was stored as a short
one, which leaves it undefined. -/
def lesser : Memory :=
  ofRequests [.alloc 0 0, .alloc 0 16, .alloc 0 0, .store .int32 2 0 (.long 5)]

/-- The three blocks after the first was freed and a number was stored. -/
def greater : Memory :=
  ofRequests [.alloc 0 0, .alloc 0 16, .alloc 0 0, .free 1, .store .int32 2 0 (.int 1)]

/-- The memory `greater` strictly extends `lesser`, and follows each operation: it allocates a fourth
block, has nothing to free for the first block, may free the third in advance, stores a long number for
an undefined one, and finds a number where `lesser` finds none. -/
theorem extends_simulation_lesser :
    lesser.Extends greater ∧ ¬ greater.Extends lesser ∧
    ((lesser.alloc 0 8).2 = (greater.alloc 0 8).2 ∧
      (lesser.alloc 0 8).1.Extends (greater.alloc 0 8).1) ∧
    (∃ m', lesser.free 1 = .ok m' ∧ m'.Extends greater) ∧
    (∃ n', greater.free 3 = .ok n' ∧ lesser.Extends n') ∧
    (∃ m' n', lesser.store .int64 2 0 .undefined = .ok m' ∧
      greater.store .int64 2 0 (.long 4) = .ok n' ∧ m'.Extends n') ∧
    lesser.load .int32 2 0 = .ok .undefined ∧
    ∃ w, greater.load .int32 2 0 = .ok w ∧ Val.undefined.lessDefined w := by
  have hextends : lesser.Extends greater := by decide
  obtain ⟨⟨hblock, hkept, hsize⟩, hfree, hadvance, hstore, hload⟩ := extends_simulation hextends
  obtain ⟨n', hstore', hstored⟩ :=
    hstore .int64 2 0 .undefined (.long 4) _ rfl (by decide) (by decide)
  exact ⟨hextends, by decide, ⟨hblock 0 8, hkept.mpr (hsize (by decide)) 0 8⟩,
    ⟨_, rfl, (hfree 1 _ rfl).2 (by decide)⟩, hadvance 3 0 rfl rfl rfl,
    ⟨_, n', rfl, hstore', hstored⟩, rfl, hload .int32 2 0 _ rfl (by decide)⟩

/-! ## Memories that have run out of numbers -/

/-- Allocating over and over adds as many blocks. -/
theorem regions_performAll_replicate (m : Memory) (lo hi : Int64) (k : Nat) :
    (m.performAll (List.replicate k (.alloc lo hi))).regions
      = m.regions ++ Array.replicate k ⟨lo, hi, some ∅⟩ := by
  induction k generalizing m with
  | zero => simp
  | succ k ih =>
    rw [List.replicate_succ, performAll_cons, ih, perform, alloc, Array.replicate_succ']
    simp

/-- The memory that has used each number of a block once, and the number zero. -/
def exhausted : Memory := ofRequests (List.replicate (2 ^ 32) (.alloc 0 4))

theorem regions_exhausted : exhausted.regions = Array.replicate (2 ^ 32) ⟨0, 4, some ∅⟩ := by
  rw [exhausted, ofRequests, regions_performAll_replicate]
  exact Array.empty_append

/-- The memory `exhausted` extends the empty one, since the next block of both has the number one.  Both
then allocate that block, and it has different bounds in the two. -/
theorem alloc_not_extends_exhausted :
    (ofRequests []).Extends exhausted ∧
    ((ofRequests []).alloc 0 8).2 = (exhausted.alloc 0 8).2 ∧
    ¬ ((ofRequests []).alloc 0 8).1.Extends (exhausted.alloc 0 8).1 := by
  have hnext : (ofRequests []).next = exhausted.next := by
    rw [next, next, regions_exhausted, Array.size_replicate]
    rfl
  refine ⟨extends_iff.mpr ⟨hnext, fun i r hr => by cases hr⟩, hnext, fun hextends => ?_⟩
  obtain ⟨s, hs, hrs⟩ := (extends_iff.mp hextends).2 0 ⟨0, 8, some ∅⟩ rfl
  have hfirst : (exhausted.alloc 0 8).1.regions[0]? = some ⟨0, 4, some ∅⟩ := by
    rw [alloc, Array.getElem?_push, regions_exhausted, Array.size_replicate, if_neg (by decide),
      Array.getElem?_replicate, if_pos (by decide)]
  rw [hfirst] at hs
  cases hs
  obtain ⟨_, hhi, _⟩ := hrs
  cases hhi

end Memory

end RegisterTransfer
