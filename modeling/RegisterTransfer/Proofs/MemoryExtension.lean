import Mathlib.Algebra.Order.Ring.Int
import RegisterTransfer.Machine.Extension
import RegisterTransfer.Proofs.Definedness
set_option autoImplicit false

/-!
# Memories in the order of definedness

What the search for a mismatch looks for, `Memory.Extends`, is said here block by block.  The memory
operations keep it: each one that succeeds on the lesser memory succeeds on the greater one, as
long as the block that it uses is still live there.  A block that only the greater memory has freed
has no room for an access whose end is not past the last offset.  A memory may be extended by one
with more blocks, if the numbers of blocks have run out; `Memory.LessDefined` asks for equally many.
-/

namespace RegisterTransfer

/-! ## Sizes of accesses -/

namespace Chunk

theorem toInt_size (c : Chunk) : c.size.toInt = 4 ∨ c.size.toInt = 8 := by
  cases c with
  | int32 => exact .inl rfl
  | _ => exact .inr rfl

/-- The end of an access that is not past the last offset does not wrap around. -/
theorem toInt_add_size {c : Chunk} {ofs : Int64}
    (hend : ofs.toInt + c.size.toInt ≤ 2 ^ 63 - 1) :
    (ofs + c.size).toInt = ofs.toInt + c.size.toInt := by
  have hlow := Int64.le_toInt ofs
  have hsize := c.toInt_size
  rw [Int64.toInt_add, Int.bmod_eq_of_le (by omega) (by omega)]

end Chunk

/-! ## Blocks of a memory -/

namespace Memory

theorem region?_eq_some_iff {m : Memory} {b : Block} {r : Region} :
    m.region? b = some r ↔ b ≠ 0 ∧ m.regions[b.toNat - 1]? = some r := by
  unfold region?
  split <;> simp_all

theorem ne_zero_of_region? {m : Memory} {b : Block} {r : Region} (h : m.region? b = some r) :
    b ≠ 0 :=
  (region?_eq_some_iff.mp h).1

/-- Blocks are numbered from one, without gaps. -/
theorem toNat_le_of_region? {m : Memory} {b : Block} {r : Region} (h : m.region? b = some r) :
    b.toNat ≤ m.regions.size := by
  obtain ⟨hb, hr⟩ := region?_eq_some_iff.mp h
  obtain ⟨hlt, _⟩ := Array.getElem?_eq_some_iff.mp hr
  omega

theorem toNat_sub_one_ne {b b' : Block} (hb : b ≠ 0) (hb' : b' ≠ 0) (h : b' ≠ b) :
    b.toNat - 1 ≠ b'.toNat - 1 := by
  have hpos : b.toNat ≠ 0 := fun e => hb (UInt32.toNat_inj.mp e)
  have hpos' : b'.toNat ≠ 0 := fun e => hb' (UInt32.toNat_inj.mp e)
  have hne : b'.toNat ≠ b.toNat := fun e => h (UInt32.toNat_inj.mp e)
  omega

@[simp] theorem size_setRegion (m : Memory) (b : Block) (r : Region) :
    (m.setRegion b r).regions.size = m.regions.size := by
  simp [setRegion]

theorem region?_setRegion_self {m : Memory} {b : Block} {r : Region} (s : Region)
    (h : m.region? b = some r) : (m.setRegion b s).region? b = some s := by
  obtain ⟨hb, hr⟩ := region?_eq_some_iff.mp h
  obtain ⟨hlt, _⟩ := Array.getElem?_eq_some_iff.mp hr
  rw [region?_eq_some_iff]
  exact ⟨hb, by simp [setRegion, hlt]⟩

theorem region?_setRegion_ne {m : Memory} {b b' : Block} (s : Region) (hb : b ≠ 0) (h : b' ≠ b) :
    (m.setRegion b s).region? b' = m.region? b' := by
  by_cases hb' : b' = 0
  · simp [region?, hb']
  · simp only [region?, hb', if_false, setRegion]
    exact Array.getElem?_setIfInBounds_ne (toNat_sub_one_ne hb hb' h)

theorem setRegion_eq_self {m : Memory} {b : Block} {r : Region} (h : m.region? b = some r) :
    m.setRegion b r = m := by
  obtain ⟨_, hr⟩ := region?_eq_some_iff.mp h
  obtain ⟨hlt, rfl⟩ := Array.getElem?_eq_some_iff.mp hr
  simp [setRegion, Array.setIfInBounds, hlt]

/-! ## What the operations do -/

variable {m m' : Memory} {c : Chunk} {b b' : Block} {ofs : Int64} {v : Val}
variable {cells : FinMap Int64 Cell}

/-- Whether an access lies within bounds and at a multiple of its size. -/
def Fits (lo hi : Int64) (c : Chunk) (ofs : Int64) : Prop :=
  ¬ (ofs < lo ∨ hi < ofs + c.size) ∧ ofs % c.size = 0

theorem live_iff :
    m.live b ↔ ∃ lo hi cells, m.region? b = some ⟨lo, hi, some cells⟩ := by
  unfold live
  cases h : m.region? b with
  | none => simp
  | some r =>
    obtain ⟨lo, hi, cells⟩ := r
    simp [Option.isSome_iff_exists]

theorem free_eq_ok_iff :
    m.free b = .ok m' ↔
      ∃ lo hi cells, m.region? b = some ⟨lo, hi, some cells⟩ ∧
        m' = m.setRegion b ⟨lo, hi, none⟩ := by
  unfold free
  cases h : m.region? b with
  | none => simp
  | some r =>
    obtain ⟨lo, hi, _ | cells⟩ := r <;> simp [eq_comm]

/-- Only the block that is freed changes. -/
theorem region?_free_ne (hfree : m.free b = .ok m') (h : b' ≠ b) :
    m'.region? b' = m.region? b' := by
  rw [free_eq_ok_iff] at hfree
  obtain ⟨lo, hi, cells, hr, rfl⟩ := hfree
  exact region?_setRegion_ne _ (ne_zero_of_region? hr) h

theorem size_free (hfree : m.free b = .ok m') : m'.regions.size = m.regions.size := by
  rw [free_eq_ok_iff] at hfree
  obtain ⟨lo, hi, cells, _, rfl⟩ := hfree
  exact size_setRegion _ _ _

theorem not_live_of_free (hfree : m.free b = .ok m') : ¬ m'.live b := by
  rw [free_eq_ok_iff] at hfree
  obtain ⟨lo, hi, cells, hr, rfl⟩ := hfree
  simp [live, region?_setRegion_self _ hr]

theorem access_eq_ok_iff :
    m.access c b ofs = .ok cells ↔
      ∃ lo hi, m.region? b = some ⟨lo, hi, some cells⟩ ∧ Fits lo hi c ofs := by
  unfold access Fits
  split
  · rename_i lo hi cells' hr
    split
    · rename_i hout
      simp only [reduceCtorEq, false_iff]
      rintro ⟨lo', hi', hr', hin, _⟩
      cases hr.symm.trans hr'
      exact hin hout
    · split <;> simp_all
  · rename_i hr
    simp only [reduceCtorEq, false_iff]
    rintro ⟨lo, hi, h, _⟩
    exact hr lo hi cells h

theorem store_eq_ok_iff :
    m.store c b ofs v = .ok m' ↔
      ∃ lo hi cells, m.region? b = some ⟨lo, hi, some cells⟩ ∧ Fits lo hi c ofs ∧
        m' = m.setRegion b ⟨lo, hi, some (write cells c ofs v)⟩ := by
  unfold store
  cases h : m.access c b ofs with
  | error e =>
    simp only [Except.map, reduceCtorEq, false_iff]
    rintro ⟨lo, hi, cells, hr, hfits, _⟩
    rw [access_eq_ok_iff.mpr ⟨lo, hi, hr, hfits⟩] at h
    cases h
  | ok cells =>
    obtain ⟨lo, hi, hr, hfits⟩ := access_eq_ok_iff.mp h
    simp [Except.map, hr, hfits, eq_comm]

/-- Only the block that is stored into changes. -/
theorem region?_store_ne (hstore : m.store c b ofs v = .ok m') (h : b' ≠ b) :
    m'.region? b' = m.region? b' := by
  rw [store_eq_ok_iff] at hstore
  obtain ⟨lo, hi, cells, hr, _, rfl⟩ := hstore
  exact region?_setRegion_ne _ (ne_zero_of_region? hr) h

theorem size_store (hstore : m.store c b ofs v = .ok m') :
    m'.regions.size = m.regions.size := by
  rw [store_eq_ok_iff] at hstore
  obtain ⟨lo, hi, cells, _, _, rfl⟩ := hstore
  exact size_setRegion _ _ _

theorem bounds?_store (hstore : m.store c b ofs v = .ok m') (b' : Block) :
    m'.bounds? b' = m.bounds? b' := by
  by_cases hb : b' = b
  · subst hb
    rw [store_eq_ok_iff] at hstore
    obtain ⟨lo, hi, cells, hr, _, rfl⟩ := hstore
    simp [bounds?, hr, region?_setRegion_self _ hr]
  · rw [bounds?, region?_store_ne hstore hb, bounds?]

theorem live_store (hstore : m.store c b ofs v = .ok m') (b' : Block) :
    m'.live b' = m.live b' := by
  by_cases hb : b' = b
  · subst hb
    rw [store_eq_ok_iff] at hstore
    obtain ⟨lo, hi, cells, hr, _, rfl⟩ := hstore
    simp [live, hr, region?_setRegion_self _ hr]
  · rw [live, region?_store_ne hstore hb, live]

/-- A store leaves every live block live, with the same bounds. -/
theorem exists_region?_store {lo hi : Int64} (hstore : m.store c b ofs v = .ok m')
    (hr : m.region? b' = some ⟨lo, hi, some cells⟩) :
    ∃ cells', m'.region? b' = some ⟨lo, hi, some cells'⟩ := by
  by_cases hb : b' = b
  · subst hb
    rw [store_eq_ok_iff] at hstore
    obtain ⟨lo', hi', cells', hr', _, rfl⟩ := hstore
    cases hr.symm.trans hr'
    exact ⟨_, region?_setRegion_self _ hr⟩
  · exact ⟨cells, (region?_store_ne hstore hb).trans hr⟩

/-- The value that a load of a chunk finds in cells. -/
def cellValue (cells : FinMap Int64 Cell) (c : Chunk) (ofs : Int64) : Val :=
  match cells.get? ofs with
  | some cell => if cell.chunk = c then cell.value else .undefined
  | none => .undefined

theorem load_eq_ok_iff :
    m.load c b ofs = .ok v ↔
      ∃ lo hi cells, m.region? b = some ⟨lo, hi, some cells⟩ ∧ Fits lo hi c ofs ∧
        v = cellValue cells c ofs := by
  change (m.access c b ofs).map (fun cells => cellValue cells c ofs) = .ok v ↔ _
  cases h : m.access c b ofs with
  | error e =>
    simp only [Except.map, reduceCtorEq, false_iff]
    rintro ⟨lo, hi, cells, hr, hfits, _⟩
    rw [access_eq_ok_iff.mpr ⟨lo, hi, hr, hfits⟩] at h
    cases h
  | ok cells =>
    obtain ⟨lo, hi, hr, hfits⟩ := access_eq_ok_iff.mp h
    simp [Except.map, hr, hfits, eq_comm]

/-! ## The values in cells -/

/-- The cells of live blocks hold only values with a property. -/
def CellsHold (m : Memory) (P : Val → Prop) : Prop :=
  ∀ r ∈ m.regions, ∀ cells, r.cells = some cells →
    ∀ ofs cell, cells.get? ofs = some cell → P cell.value

namespace CellsHold

variable {P : Val → Prop}

theorem of_region? (h : m.CellsHold P) {lo hi : Int64}
    (hr : m.region? b = some ⟨lo, hi, some cells⟩) {cell : Cell}
    (hcell : cells.get? ofs = some cell) : P cell.value :=
  h _ (Array.mem_of_getElem? (region?_eq_some_iff.mp hr).2) cells rfl ofs cell hcell

theorem setRegion (h : m.CellsHold P) (b : Block) {r : Region}
    (hr : ∀ cells, r.cells = some cells →
      ∀ ofs cell, cells.get? ofs = some cell → P cell.value) :
    (m.setRegion b r).CellsHold P := by
  intro r' hr'
  rcases Array.mem_or_eq_of_mem_setIfInBounds hr' with hmem | rfl
  · exact h r' hmem
  · exact hr

theorem alloc (h : m.CellsHold P) (lo hi : Int64) : (m.alloc lo hi).1.CellsHold P := by
  intro r hr cells hcells ofs cell hcell
  rcases Array.mem_push.mp hr with hmem | rfl
  · exact h r hmem cells hcells ofs cell hcell
  · cases hcells
    simp at hcell

theorem free (h : m.CellsHold P) (hfree : m.free b = .ok m') : m'.CellsHold P := by
  obtain ⟨lo, hi, cells, _, rfl⟩ := free_eq_ok_iff.mp hfree
  exact h.setRegion b fun _ hcells => by cases hcells

/-- A store adds one value, that which the chunk makes of the value stored. -/
theorem store (h : m.CellsHold P) (hv : P (c.normalize v)) (hstore : m.store c b ofs v = .ok m') :
    m'.CellsHold P := by
  obtain ⟨lo, hi, cells, hr, _, rfl⟩ := store_eq_ok_iff.mp hstore
  refine h.setRegion b fun cells' hcells' o cell hcell => ?_
  cases hcells'
  unfold write at hcell
  by_cases ho : o = ofs
  · subst ho
    simp only [FinMap.get?_insert_self, Option.some.injEq] at hcell
    subst hcell
    exact hv
  · rw [FinMap.get?_insert_ne _ _ ho, FinMap.get?_filter] at hcell
    exact h.of_region? hr (Option.filter_eq_some_iff.mp hcell).1

end CellsHold

end Memory

/-! ## The order on cells and blocks -/

/-- A cell is below what stands at its offset: it is undefined, or a cell of its chunk stands there
whose value is at least as defined. -/
def Cell.LessDefined (c : Cell) (target : Option Cell) : Prop :=
  c.value = .undefined ∨ ∃ d, target = some d ∧ c.chunk = d.chunk ∧ c.value.lessDefined d.value

theorem Cell.mismatch?_eq_none_iff {b : Block} {ofs : Int64} {c : Cell} {target : Option Cell} :
    c.mismatch? b ofs target = none ↔ c.LessDefined target := by
  unfold Cell.mismatch? Cell.LessDefined
  split
  · simp_all
  · cases target <;> simp_all

/-- A block is below another of the same number.  Only a block without room may be live while the
other has been freed. -/
def Region.LessDefined (r s : Region) : Prop :=
  match r.cells, s.cells with
  | none, some _ => False
  | some _, none => r.hi = r.lo
  | none, none => True
  | some cells, some cells' =>
    r.lo = s.lo ∧ r.hi = s.hi ∧
      ∀ ofs c, cells.get? ofs = some c → c.LessDefined (cells'.get? ofs)

theorem Region.mismatch?_eq_none_iff {b : Block} {r s : Region} :
    r.mismatch? b s = none ↔ r.LessDefined s := by
  obtain ⟨lo, hi, cells⟩ := r
  obtain ⟨lo', hi', cells'⟩ := s
  cases cells with
  | none => cases cells' <;> simp [Region.mismatch?, Region.LessDefined]
  | some cells =>
    cases cells' with
    | none => simp [Region.mismatch?, Region.LessDefined]
    | some cells' =>
      simp only [Region.mismatch?, Region.LessDefined]
      split
      · rename_i hbounds
        simp only [reduceCtorEq, false_iff]
        rintro ⟨hlo, hhi, _⟩
        exact hbounds.elim (· hlo) (· hhi)
      · rename_i hbounds
        obtain ⟨hlo, hhi⟩ := not_or.mp hbounds
        simp [not_not.mp hlo, not_not.mp hhi, FinMap.get?_eq_some_iff_mem,
          Cell.mismatch?_eq_none_iff]

/-! ## The order on memories -/

/-- A memory is below another: both have allocated as many blocks, and each block is below the
other memory's. -/
structure Memory.LessDefined (m n : Memory) : Prop where
  size_eq : m.regions.size = n.regions.size
  region : ∀ (i : Nat) (r s : Region),
    m.regions[i]? = some r → n.regions[i]? = some s → r.LessDefined s

namespace Memory

/-- A memory extends another if both have the same next block and each block of the other is below
the one in the same place. -/
theorem extends_iff {m n : Memory} :
    m.Extends n ↔ m.next = n.next ∧ ∀ (i : Nat) (r : Region), m.regions[i]? = some r →
      ∃ s, n.regions[i]? = some s ∧ r.LessDefined s := by
  unfold Extends mismatch?
  split
  · rename_i hne
    simp [hne]
  · rename_i heq
    rw [List.findSome?_eq_none_iff, and_iff_right (not_not.mp heq)]
    constructor
    · intro h i r hr
      have hcompare := h (r, i) (List.mem_zipIdx_iff_getElem?.mpr (by simpa using hr))
      cases hs : n.regions[i]? with
      | none => simp [hs] at hcompare
      | some s => exact ⟨s, rfl, Region.mismatch?_eq_none_iff.mp (by simpa [hs] using hcompare)⟩
    · rintro h ⟨r, i⟩ hmem
      obtain ⟨s, hs, hrs⟩ := h i r (by simpa using List.mem_zipIdx_iff_getElem?.mp hmem)
      simpa [hs] using Region.mismatch?_eq_none_iff.mpr hrs

theorem Extends.next_eq {m n : Memory} (h : m.Extends n) : m.next = n.next := (extends_iff.mp h).1

/-- A memory is below those that extend it and have as many blocks. -/
theorem lessDefined_iff {m n : Memory} :
    m.LessDefined n ↔ m.Extends n ∧ m.regions.size = n.regions.size := by
  rw [extends_iff]
  constructor
  · intro h
    refine ⟨⟨by simp [next, h.size_eq], fun i r hr => ?_⟩, h.size_eq⟩
    obtain ⟨hlt, _⟩ := Array.getElem?_eq_some_iff.mp hr
    have hlt' : i < n.regions.size := h.size_eq ▸ hlt
    exact ⟨n.regions[i], by simp [hlt'], h.region i r _ hr (by simp [hlt'])⟩
  · rintro ⟨⟨_, hregions⟩, hsize⟩
    refine ⟨hsize, fun i r s hr hs => ?_⟩
    obtain ⟨s', hs', hrs⟩ := hregions i r hr
    cases hs.symm.trans hs'
    exact hrs

theorem LessDefined.extends {m n : Memory} (h : m.LessDefined n) : m.Extends n :=
  (lessDefined_iff.mp h).1

theorem Extends.exists_region {m n : Memory} (h : m.Extends n) {b : Block} {r : Region}
    (hr : m.region? b = some r) : ∃ s, n.region? b = some s ∧ r.LessDefined s := by
  obtain ⟨hb, hget⟩ := region?_eq_some_iff.mp hr
  obtain ⟨s, hs, hrs⟩ := (extends_iff.mp h).2 _ r hget
  exact ⟨s, region?_eq_some_iff.mpr ⟨hb, hs⟩, hrs⟩

/-! ## Operations on memories that extend each other -/

variable {m n m' : Memory}

theorem Extends.setRegion (h : m.Extends n) (b : Block) {r s : Region} (hrs : r.LessDefined s) :
    (m.setRegion b r).Extends (n.setRegion b s) := by
  obtain ⟨hnext, hregions⟩ := extends_iff.mp h
  refine extends_iff.mpr ⟨by simpa [next] using hnext, fun i r' hr => ?_⟩
  simp only [Memory.setRegion, Array.getElem?_setIfInBounds] at hr ⊢
  by_cases hi : b.toNat - 1 = i
  · rw [if_pos hi] at hr ⊢
    obtain ⟨hlt, heq⟩ := Option.ite_none_right_eq_some.mp hr
    cases heq
    -- The place is there in the greater memory, since the lesser one has a block there.
    obtain ⟨_, hs, _⟩ := hregions i _ (Array.getElem?_eq_getElem (hi ▸ hlt))
    obtain ⟨hlt', _⟩ := Array.getElem?_eq_some_iff.mp hs
    exact ⟨s, if_pos (hi ▸ hlt'), hrs⟩
  · rw [if_neg hi] at hr ⊢
    exact hregions i r' hr

/-- Both memories free a block that is live in both. -/
theorem Extends.free (h : m.Extends n) {b : Block} (hfree : m.free b = .ok m')
    (hlive : n.live b) : ∃ n', n.free b = .ok n' ∧ m'.Extends n' := by
  obtain ⟨lo, hi, cells, _, rfl⟩ := free_eq_ok_iff.mp hfree
  obtain ⟨lo', hi', cells', hs⟩ := live_iff.mp hlive
  exact ⟨_, free_eq_ok_iff.mpr ⟨lo', hi', cells', hs, rfl⟩, h.setRegion b trivial⟩

/-- The lesser memory frees a block that the greater one has freed before. -/
theorem Extends.free_left (h : m.Extends n) {b : Block} (hfree : m.free b = .ok m')
    (hdead : ¬ n.live b) : m'.Extends n := by
  obtain ⟨lo, hi, cells, hr, rfl⟩ := free_eq_ok_iff.mp hfree
  obtain ⟨⟨lo', hi', cells'⟩, hs, _⟩ := h.exists_region hr
  cases cells' with
  | none =>
    rw [← setRegion_eq_self hs]
    exact h.setRegion b trivial
  | some cells' => exact absurd (live_iff.mpr ⟨lo', hi', cells', hs⟩) hdead

/-- The greater memory frees a block without room before the lesser one does. -/
theorem Extends.free_right (h : m.Extends n) {b : Block} {lo : Int64}
    {cells : FinMap Int64 Cell} (hr : m.region? b = some ⟨lo, lo, some cells⟩) (hlive : n.live b) :
    ∃ n', n.free b = .ok n' ∧ m.Extends n' := by
  obtain ⟨lo', hi', cells', hs⟩ := live_iff.mp hlive
  refine ⟨_, free_eq_ok_iff.mpr ⟨lo', hi', cells', hs, rfl⟩, ?_⟩
  rw [← setRegion_eq_self hr]
  exact h.setRegion b rfl

/-- A live block has the same bounds and lesser cells where it is still live. -/
theorem Extends.exists_cells (h : m.Extends n) {b : Block} {lo hi : Int64}
    {cells : FinMap Int64 Cell} (hr : m.region? b = some ⟨lo, hi, some cells⟩)
    (hlive : n.live b) : ∃ cells', n.region? b = some ⟨lo, hi, some cells'⟩ ∧
      ∀ ofs c, cells.get? ofs = some c → c.LessDefined (cells'.get? ofs) := by
  obtain ⟨s, hs, hrs⟩ := h.exists_region hr
  obtain ⟨lo', hi', cells', hs'⟩ := live_iff.mp hlive
  cases hs.symm.trans hs'
  obtain ⟨rfl, rfl, hcells⟩ := hrs
  exact ⟨cells', hs, hcells⟩

theorem Extends.load (h : m.Extends n) {c : Chunk} {b : Block} {ofs : Int64} {v : Val}
    (hload : m.load c b ofs = .ok v) (hlive : n.live b) :
    ∃ w, n.load c b ofs = .ok w ∧ v.lessDefined w := by
  obtain ⟨lo, hi, cells, hr, hfits, rfl⟩ := load_eq_ok_iff.mp hload
  obtain ⟨cells', hs, hcells⟩ := h.exists_cells hr hlive
  refine ⟨_, load_eq_ok_iff.mpr ⟨lo, hi, cells', hs, hfits, rfl⟩, ?_⟩
  unfold cellValue
  cases hget : cells.get? ofs with
  | none => rfl
  | some cell =>
    rcases hcells ofs cell hget with hundef | ⟨d, hd, hchunk, hvalue⟩
    · simp [hundef]
    · simp only [hd, hchunk]
      split
      · exact hvalue
      · rfl

theorem normalize_lessDefined (c : Chunk) {v w : Val} (h : v.lessDefined w) :
    (c.normalize v).lessDefined (c.normalize w) := by
  rcases Val.lessDefined_iff.mp h with hv | rfl
  · cases v <;> cases c <;> simp_all [Val.read, Chunk.normalize]
  · exact Val.lessDefined_refl _

/-- A store removes the same cells from both: overlap depends only on offsets and chunks. -/
theorem write_lessDefined {cells cells' : FinMap Int64 Cell} (c : Chunk) (ofs : Int64) {v w : Val}
    (hcells : ∀ o d, cells.get? o = some d → d.LessDefined (cells'.get? o))
    (hv : v.lessDefined w) (o : Int64) (d : Cell) (hd : (write cells c ofs v).get? o = some d) :
    d.LessDefined ((write cells' c ofs w).get? o) := by
  unfold write at hd ⊢
  by_cases ho : o = ofs
  · subst ho
    simp only [FinMap.get?_insert_self, Option.some.injEq] at hd ⊢
    subst hd
    exact .inr ⟨_, rfl, rfl, normalize_lessDefined c hv⟩
  · rw [FinMap.get?_insert_ne _ _ ho, FinMap.get?_filter] at hd ⊢
    obtain ⟨hd, hkeep⟩ := Option.filter_eq_some_iff.mp hd
    rcases hcells o d hd with hundef | ⟨d', hd', hchunk, hvalue⟩
    · exact .inl hundef
    · refine .inr ⟨d', ?_, hchunk, hvalue⟩
      rw [hd', Option.filter_eq_some_iff]
      refine ⟨rfl, ?_⟩
      simpa only [overlaps, hchunk] using hkeep

theorem Extends.store (h : m.Extends n) {c : Chunk} {b : Block} {ofs : Int64} {v w : Val}
    (hstore : m.store c b ofs v = .ok m') (hv : v.lessDefined w) (hlive : n.live b) :
    ∃ n', n.store c b ofs w = .ok n' ∧ m'.Extends n' := by
  obtain ⟨lo, hi, cells, hr, hfits, rfl⟩ := store_eq_ok_iff.mp hstore
  obtain ⟨cells', hs, hcells⟩ := h.exists_cells hr hlive
  refine ⟨_, store_eq_ok_iff.mpr ⟨lo, hi, cells', hs, hfits, rfl⟩, h.setRegion b ?_⟩
  exact ⟨rfl, rfl, write_lessDefined c ofs hcells hv⟩

/-- No access whose end is not past the last offset fits into a block without room. -/
theorem not_fits_of_eq {lo ofs : Int64} {c : Chunk}
    (hend : ofs.toInt + c.size.toInt ≤ 2 ^ 63 - 1) : ¬ Fits lo lo c ofs := by
  rintro ⟨hbounds, _⟩
  have hsize := c.toInt_size
  rw [Int64.lt_iff_toInt_lt, Int64.lt_iff_toInt_lt, Chunk.toInt_add_size hend] at hbounds
  omega

/-- A block that can be accessed in the lesser memory is live in the greater one. -/
theorem Extends.live (h : m.Extends n) {c : Chunk} {b : Block} {ofs lo hi : Int64}
    {cells : FinMap Int64 Cell} (hr : m.region? b = some ⟨lo, hi, some cells⟩)
    (hfits : Fits lo hi c ofs) (hend : ofs.toInt + c.size.toInt ≤ 2 ^ 63 - 1) : n.live b := by
  obtain ⟨⟨lo', hi', cells'⟩, hs, hrs⟩ := h.exists_region hr
  cases cells' with
  | none =>
    obtain rfl : hi = lo := hrs
    exact absurd hfits (not_fits_of_eq hend)
  | some cells' => exact live_iff.mpr ⟨lo', hi', cells', hs⟩

/-! ## Memories with equally many blocks -/

namespace LessDefined

/-- Both memories allocate the same block. -/
theorem alloc (h : m.LessDefined n) (lo hi : Int64) :
    (m.alloc lo hi).1.LessDefined (n.alloc lo hi).1 ∧ (m.alloc lo hi).2 = (n.alloc lo hi).2 := by
  refine ⟨⟨by simp [Memory.alloc, h.size_eq], ?_⟩, by simp [Memory.alloc, next, h.size_eq]⟩
  intro i r s hr hs
  simp only [Memory.alloc, Array.getElem?_push, h.size_eq] at hr hs
  split at hr
  · rename_i hi
    rw [if_pos hi] at hs
    cases hr
    cases hs
    simp [Region.LessDefined]
  · rename_i hi
    rw [if_neg hi] at hs
    exact h.region i r s hr hs

theorem free (h : m.LessDefined n) {b : Block} (hfree : m.free b = .ok m') (hlive : n.live b) :
    ∃ n', n.free b = .ok n' ∧ m'.LessDefined n' := by
  obtain ⟨n', hfree', hextends⟩ := h.extends.free hfree hlive
  refine ⟨n', hfree', lessDefined_iff.mpr ⟨hextends, ?_⟩⟩
  rw [size_free hfree, size_free hfree', h.size_eq]

theorem free_left (h : m.LessDefined n) {b : Block} (hfree : m.free b = .ok m')
    (hdead : ¬ n.live b) : m'.LessDefined n := by
  refine lessDefined_iff.mpr ⟨h.extends.free_left hfree hdead, ?_⟩
  rw [size_free hfree, h.size_eq]

theorem free_right (h : m.LessDefined n) {b : Block} {lo : Int64} {cells : FinMap Int64 Cell}
    (hr : m.region? b = some ⟨lo, lo, some cells⟩) (hlive : n.live b) :
    ∃ n', n.free b = .ok n' ∧ m.LessDefined n' := by
  obtain ⟨n', hfree, hextends⟩ := h.extends.free_right hr hlive
  refine ⟨n', hfree, lessDefined_iff.mpr ⟨hextends, ?_⟩⟩
  rw [size_free hfree, h.size_eq]

theorem store (h : m.LessDefined n) {c : Chunk} {b : Block} {ofs : Int64} {v w : Val}
    (hstore : m.store c b ofs v = .ok m') (hv : v.lessDefined w) (hlive : n.live b) :
    ∃ n', n.store c b ofs w = .ok n' ∧ m'.LessDefined n' := by
  obtain ⟨n', hstore', hextends⟩ := h.extends.store hstore hv hlive
  refine ⟨n', hstore', lessDefined_iff.mpr ⟨hextends, ?_⟩⟩
  rw [size_store hstore, size_store hstore', h.size_eq]

end LessDefined

end Memory

end RegisterTransfer
