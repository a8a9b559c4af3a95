import RegisterTransfer.Proofs.AccessBounds
set_option autoImplicit false

/-!
# Loads after a store

A block keeps one cell for each offset at which a value was stored, so the bytes of two cells could
overlap.  A store removes the cells whose bytes it overlaps, those that start before it included, and
no others.  A later load therefore finds the stored value at the same place, what it found before at
bytes that the store has not touched, and nothing where only some of its bytes are those of the
store, or where the same bytes are read as another chunk.
-/

namespace RegisterTransfer

/-! ## Bytes of an access -/

namespace Chunk

/-- A byte belongs to an access.  Bytes are exact numbers and do not wrap around. -/
def Covers (c : Chunk) (ofs : Int64) (byte : Int) : Prop :=
  ofs.toInt ≤ byte ∧ byte < ofs.toInt + c.size.toInt

/-- Two accesses share a byte. -/
def Meets (c : Chunk) (ofs : Int64) (c' : Chunk) (ofs' : Int64) : Prop :=
  ∃ byte, c.Covers ofs byte ∧ c'.Covers ofs' byte

variable {c c' : Chunk} {ofs ofs' : Int64}

/-- If two accesses share a byte, they share the first one of the access that starts later. -/
theorem meets_iff :
    c.Meets ofs c' ofs' ↔
      ofs'.toInt < ofs.toInt + c.size.toInt ∧ ofs.toInt < ofs'.toInt + c'.size.toInt := by
  unfold Meets Covers
  constructor
  · rintro ⟨byte, ⟨hle, hlt⟩, hle', hlt'⟩
    omega
  · rintro ⟨hlt, hlt'⟩
    have hsize := c.toInt_size
    have hsize' := c'.toInt_size
    exact ⟨max ofs.toInt ofs'.toInt, by omega, by omega⟩

theorem meets_self : c.Meets ofs c' ofs := by
  have hsize := c.toInt_size
  have hsize' := c'.toInt_size
  rw [meets_iff]
  omega

end Chunk

namespace Memory

variable {m m' : Memory} {c c' : Chunk} {b b' : Block} {ofs ofs' : Int64} {v : Val}
variable {cells : FinMap Int64 Cell}

/-- The test for overlap is exact for accesses that end no further than the last offset. -/
theorem overlaps_iff {w : Val} (hend : ofs.toInt + c.size.toInt ≤ 2 ^ 63 - 1)
    (hend' : ofs'.toInt + c'.size.toInt ≤ 2 ^ 63 - 1) :
    overlaps ofs c.size ofs' ⟨c', w⟩ ↔ c.Meets ofs c' ofs' := by
  simp only [overlaps, Bool.and_eq_true, decide_eq_true_eq, Int64.lt_iff_toInt_lt,
    Chunk.toInt_add_size hend, Chunk.toInt_add_size hend', Chunk.meets_iff]

/-! ## Cells after a store -/

theorem cellValue_write_self : cellValue (write cells c ofs v) c ofs = c.normalize v := by
  simp [cellValue, write]

/-- At another offset a load finds what it found before, or nothing if its bytes overlap the store's.
A cell of another chunk may stay or go: the load finds it neither before nor after. -/
theorem cellValue_write_ne (h : ofs' ≠ ofs) :
    cellValue (write cells c ofs v) c' ofs' =
      if overlaps ofs c.size ofs' ⟨c', .undefined⟩ then .undefined
      else cellValue cells c' ofs' := by
  unfold cellValue
  rw [write, FinMap.get?_insert_ne _ _ h, FinMap.get?_filter]
  cases cells.get? ofs' with
  | none => simp
  | some cell =>
    obtain ⟨chunk, value⟩ := cell
    have hsame : overlaps ofs c.size ofs' ⟨chunk, value⟩
        = overlaps ofs c.size ofs' ⟨chunk, .undefined⟩ := rfl
    rw [Option.filter_some, hsame]
    by_cases hchunk : chunk = c'
    · subst hchunk
      cases overlaps ofs c.size ofs' ⟨chunk, .undefined⟩ <;> simp
    · cases overlaps ofs c.size ofs' ⟨chunk, .undefined⟩ <;> simp [hchunk]

theorem cellValue_write_of_disjoint (hend : ofs.toInt + c.size.toInt ≤ 2 ^ 63 - 1)
    (hend' : ofs'.toInt + c'.size.toInt ≤ 2 ^ 63 - 1)
    (hdisjoint : ¬ c.Meets ofs c' ofs') :
    cellValue (write cells c ofs v) c' ofs' = cellValue cells c' ofs' := by
  have hne : ofs' ≠ ofs := by
    rintro rfl
    exact hdisjoint Chunk.meets_self
  rw [cellValue_write_ne hne, if_neg]
  rw [overlaps_iff hend hend']
  exact hdisjoint

/-- Bytes some of which are the store's are found only as the chunk that was stored. -/
theorem cellValue_write_of_meets (hend : ofs.toInt + c.size.toInt ≤ 2 ^ 63 - 1)
    (hend' : ofs'.toInt + c'.size.toInt ≤ 2 ^ 63 - 1)
    (hmeets : c.Meets ofs c' ofs') (hne : (c', ofs') ≠ (c, ofs)) :
    cellValue (write cells c ofs v) c' ofs' = .undefined := by
  by_cases hofs : ofs' = ofs
  · subst hofs
    have hchunk : c ≠ c' := fun h => hne (by rw [h])
    simp [cellValue, write, hchunk]
  · rw [cellValue_write_ne hofs, if_pos]
    exact (overlaps_iff hend hend').mpr hmeets

/-! ## Loads -/

/-- A store changes neither which blocks are live nor their bounds, so the same accesses are granted
after it. -/
theorem exists_access_store_iff (hstore : m.store c b ofs v = .ok m') :
    (∃ cells, m'.access c' b' ofs' = .ok cells) ↔ ∃ cells, m.access c' b' ofs' = .ok cells := by
  rw [exists_access_iff, exists_access_iff, live_store hstore, bounds?_store hstore]

theorem exists_load_iff :
    (∃ w, m.load c b ofs = .ok w) ↔ ∃ cells, m.access c b ofs = .ok cells := by
  cases h : m.access c b ofs <;> simp [load, h, Except.map]

/-- Loads from blocks with the same bounds differ at most in what they find. -/
theorem load_congr {lo hi : Int64} {cells' : FinMap Int64 Cell}
    (hr : m.region? b = some ⟨lo, hi, some cells⟩) (hr' : m'.region? b = some ⟨lo, hi, some cells'⟩)
    (hcells : cellValue cells' c ofs = cellValue cells c ofs) :
    m'.load c b ofs = m.load c b ofs := by
  change (m'.access c b ofs).map (cellValue · c ofs) = (m.access c b ofs).map (cellValue · c ofs)
  simp only [access, hr, hr']
  split
  · rfl
  · split
    · rfl
    · exact congrArg Except.ok hcells

theorem load_store_self (hstore : m.store c b ofs v = .ok m') :
    m'.load c b ofs = .ok (c.normalize v) := by
  obtain ⟨lo, hi, cells, hr, hfits, rfl⟩ := store_eq_ok_iff.mp hstore
  rw [load_eq_ok_iff]
  exact ⟨lo, hi, _, region?_setRegion_self _ hr, hfits, cellValue_write_self.symm⟩

theorem load_store_of_ne (hstore : m.store c b ofs v = .ok m') (hb : b' ≠ b) :
    m'.load c' b' ofs' = m.load c' b' ofs' := by
  simp only [load, access, region?_store_ne hstore hb]

theorem load_store_of_disjoint (hstore : m.store c b ofs v = .ok m')
    (hend : ofs.toInt + c.size.toInt ≤ 2 ^ 63 - 1)
    (hend' : ofs'.toInt + c'.size.toInt ≤ 2 ^ 63 - 1)
    (hdisjoint : ¬ c.Meets ofs c' ofs') :
    m'.load c' b ofs' = m.load c' b ofs' := by
  obtain ⟨lo, hi, cells, hr, _, rfl⟩ := store_eq_ok_iff.mp hstore
  exact load_congr hr (region?_setRegion_self _ hr)
    (cellValue_write_of_disjoint hend hend' hdisjoint)

theorem load_store_of_meets (hstore : m.store c b ofs v = .ok m')
    (hend : ofs.toInt + c.size.toInt ≤ 2 ^ 63 - 1)
    (hend' : ofs'.toInt + c'.size.toInt ≤ 2 ^ 63 - 1)
    (hmeets : c.Meets ofs c' ofs') (hne : (c', ofs') ≠ (c, ofs)) {w : Val}
    (hload : m.load c' b ofs' = .ok w) : m'.load c' b ofs' = .ok .undefined := by
  obtain ⟨lo, hi, cells, hr, _, rfl⟩ := store_eq_ok_iff.mp hstore
  obtain ⟨lo', hi', cells', hr', hfits, _⟩ := load_eq_ok_iff.mp hload
  cases hr.symm.trans hr'
  rw [load_eq_ok_iff]
  exact ⟨lo, hi, _, region?_setRegion_self _ hr, hfits,
    (cellValue_write_of_meets hend hend' hmeets hne).symm⟩

/-- After a store, the same load gives the stored value, every load succeeds that did before, and it
gives what it gave before, unless it shares bytes with the store: then it gives `undefined`. -/
theorem load_store (hstore : m.store c b ofs v = .ok m')
    (hend : ofs.toInt + c.size.toInt ≤ 2 ^ 63 - 1) :
    m'.load c b ofs = .ok (c.normalize v) ∧
    ∀ (c' : Chunk) (b' : Block) (ofs' : Int64), ofs'.toInt + c'.size.toInt ≤ 2 ^ 63 - 1 →
      ((∃ w, m'.load c' b' ofs' = .ok w) ↔ ∃ w, m.load c' b' ofs' = .ok w) ∧
      (b' ≠ b ∨ ¬ c.Meets ofs c' ofs' → m'.load c' b' ofs' = m.load c' b' ofs') ∧
      (b' = b → c.Meets ofs c' ofs' → (c', ofs') ≠ (c, ofs) →
        (∃ w, m.load c' b' ofs' = .ok w) → m'.load c' b' ofs' = .ok .undefined) := by
  refine ⟨load_store_self hstore, fun c' b' ofs' hend' => ⟨?_, ?_, ?_⟩⟩
  · rw [exists_load_iff, exists_load_iff]
    exact exists_access_store_iff hstore
  · intro h
    by_cases hb : b' = b
    · subst hb
      exact load_store_of_disjoint hstore hend hend' (h.resolve_left (· rfl))
    · exact load_store_of_ne hstore hb
  · rintro rfl hmeets hne ⟨w, hload⟩
    exact load_store_of_meets hstore hend hend' hmeets hne hload

/-- A block of sixteen bytes with a long number in each half. -/
def halves : Memory :=
  ⟨#[⟨0, 16, some (.ofList [(0, ⟨.int64, .long 1⟩), (8, ⟨.int64, .long 2⟩)])⟩]⟩

/-- A number stored into the second part of the first half is found there; the long number of that
half is gone, and that of the other half is still there.  No load between the halves succeeds. -/
theorem load_store_halves :
    ∃ m', halves.store .int32 1 4 (.int 7) = .ok m' ∧
      m'.load .int32 1 4 = .ok (.int 7) ∧
      halves.load .int64 1 0 = .ok (.long 1) ∧ m'.load .int64 1 0 = .ok .undefined ∧
      m'.load .int64 1 8 = .ok (.long 2) ∧ ¬ ∃ w, m'.load .int64 1 4 = .ok w := by
  have hstore : halves.store .int32 1 4 (.int 7) = .ok _ := rfl
  obtain ⟨hself, hothers⟩ := load_store hstore (by decide)
  obtain ⟨_, _, hmeets⟩ := hothers .int64 1 0 (by decide)
  obtain ⟨_, hdisjoint, _⟩ := hothers .int64 1 8 (by decide)
  obtain ⟨hsucceeds, _, _⟩ := hothers .int64 1 4 (by decide)
  refine ⟨_, hstore, hself, rfl, hmeets rfl ?_ (by decide) ⟨_, rfl⟩, hdisjoint (.inr ?_), ?_⟩
  · rw [Chunk.meets_iff]
    decide
  · rw [Chunk.meets_iff]
    decide
  · rw [hsucceeds]
    rintro ⟨w, hload⟩
    cases hload

end Memory

end RegisterTransfer
