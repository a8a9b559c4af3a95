import RegisterTransfer.Proofs.FrameChecks
set_option autoImplicit false

/-!
# Requests to a memory

A memory may be asked to allocate, to store and to free; a request that it refuses changes nothing.
However many requests are made, a block that was allocated keeps its number, a live block keeps its
bounds until it is freed, and a freed block stays freed.  The block of a function therefore passes
its check after any requests exactly if none of them frees it (`Memory.frameError?_performAll`).
-/

namespace RegisterTransfer

namespace Memory

/-- What a memory may be asked to do. -/
inductive Request
  | alloc (lo hi : Int64)
  | store (c : Chunk) (b : Block) (ofs : Int64) (v : Val)
  | free (b : Block)
  deriving DecidableEq, Repr

/-- The memory after a request.  One that fails leaves the memory as it was. -/
def perform (m : Memory) : Request → Memory
  | .alloc lo hi => (m.alloc lo hi).1
  | .store c b ofs v => (m.store c b ofs v).toOption.getD m
  | .free b => (m.free b).toOption.getD m

/-- The memory after requests that are made one after the other. -/
def performAll (m : Memory) (requests : List Request) : Memory := requests.foldl perform m

/-- The memory that requests build from the empty one. -/
def ofRequests (requests : List Request) : Memory := (∅ : Memory).performAll requests

variable {m m' : Memory} {q : Request} {b bound : Block} {name : String} {stackSize : Int64}

@[simp] theorem performAll_nil (m : Memory) : m.performAll [] = m := rfl

@[simp] theorem performAll_cons (m : Memory) (q : Request) (requests : List Request) :
    m.performAll (q :: requests) = (m.perform q).performAll requests := rfl

/-! ## Single requests -/

/-- What a request does: the memory grants it, or stays as it is. -/
inductive Performed (m : Memory) : Request → Memory → Prop
  | alloc (lo hi : Int64) : Performed m (.alloc lo hi) (m.alloc lo hi).1
  | store {c : Chunk} {b : Block} {ofs : Int64} {v : Val} {m' : Memory}
      (hstore : m.store c b ofs v = .ok m') : Performed m (.store c b ofs v) m'
  | free {b : Block} {m' : Memory} (hfree : m.free b = .ok m') : Performed m (.free b) m'
  | refused (q : Request) : Performed m q m

theorem performed (m : Memory) (q : Request) : m.Performed q (m.perform q) := by
  cases q with
  | alloc lo hi => exact .alloc lo hi
  | store c b ofs v =>
    simp only [perform]
    cases hstore : m.store c b ofs v with
    | ok m' => exact .store hstore
    | error e => exact .refused _
  | free b =>
    simp only [perform]
    cases hfree : m.free b with
    | ok m' => exact .free hfree
    | error e => exact .refused _

/-- A freed block can be neither stored into nor freed again. -/
theorem Performed.region?_freed {lo hi : Int64} (h : m.Performed q m')
    (hr : m.region? b = some ⟨lo, hi, none⟩) : m'.region? b = some ⟨lo, hi, none⟩ := by
  cases h with
  | alloc lo' hi' => exact region?_alloc_of_region? hr lo' hi'
  | @store c b' ofs v _ hstore =>
    obtain ⟨_, _, _, hr', _, _⟩ := store_eq_ok_iff.mp hstore
    have hne : b ≠ b' := by
      rintro rfl
      cases hr.symm.trans hr'
    exact (region?_store_ne hstore hne).trans hr
  | @free b' _ hfree =>
    obtain ⟨_, _, _, hr', _⟩ := free_eq_ok_iff.mp hfree
    have hne : b ≠ b' := by
      rintro rfl
      cases hr.symm.trans hr'
    exact (region?_free_ne hfree hne).trans hr
  | refused => exact hr

/-- The block of a function is lost to it only by a request to free that block. -/
theorem Performed.holds (h : m.Performed q m') (hholds : m.Holds stackSize b bound)
    (hq : q ≠ .free b) : m'.Holds stackSize b bound := by
  cases h with
  | alloc lo hi => exact hholds.alloc lo hi
  | store hstore => exact hholds.store hstore
  | free hfree =>
    refine hholds.free hfree ?_
    rintro rfl
    exact hq rfl
  | refused => exact hholds

/-- A request to free the block of a function is granted. -/
theorem Holds.region?_perform_free (h : m.Holds stackSize b bound) :
    ∃ lo hi, (m.perform (.free b)).region? b = some ⟨lo, hi, none⟩ := by
  obtain ⟨lo, hi, cells, hr, _⟩ := h.region
  have hfree : m.free b = .ok (m.setRegion b ⟨lo, hi, none⟩) :=
    free_eq_ok_iff.mpr ⟨lo, hi, cells, hr, rfl⟩
  refine ⟨lo, hi, ?_⟩
  simp only [perform, hfree, Except.toOption, Option.getD_some]
  exact region?_setRegion_self _ hr

/-! ## Sequences of requests -/

/-- A freed block stays freed. -/
theorem region?_performAll_freed {lo hi : Int64} (requests : List Request)
    (hr : m.region? b = some ⟨lo, hi, none⟩) :
    (m.performAll requests).region? b = some ⟨lo, hi, none⟩ := by
  induction requests generalizing m with
  | nil => exact hr
  | cons q requests ih => exact ih ((m.performed q).region?_freed hr)

/-- The block of a function stays as it must be through requests exactly if none of them frees it. -/
theorem Holds.performAll_iff (requests : List Request) (h : m.Holds stackSize b bound) :
    (m.performAll requests).Holds stackSize b bound ↔ .free b ∉ requests := by
  induction requests generalizing m with
  | nil => simpa using h
  | cons q requests ih =>
    by_cases hq : q = .free b
    · -- The block is freed by the first request, and none of the others brings it back.
      subst hq
      obtain ⟨lo, hi, hr⟩ := h.region?_perform_free
      have hfreed := region?_performAll_freed requests hr
      simp only [performAll_cons, List.mem_cons, true_or, not_true, iff_false]
      intro hholds
      obtain ⟨_, _, _, hr', _⟩ := hholds.region
      cases hfreed.symm.trans hr'
    · rw [performAll_cons, ih ((m.performed q).holds h hq), List.mem_cons, not_or]
      exact (and_iff_right (Ne.symm hq)).symm

/-- Where a block is as it must be below some bound, it is so below the next block. -/
theorem Holds.below_next (h : m.Holds stackSize b bound) (hsize : m.regions.size + 1 < 2 ^ 32) :
    m.Holds stackSize b m.next := by
  obtain ⟨lo, hi, cells, hr, hstack⟩ := h.region
  exact ⟨lt_next_of_region? hsize hr, lo, hi, cells, hr, hstack⟩

/-- The check of a function's block that finds nothing finds nothing after any requests, granted or
refused, exactly if none of them is to free that block.  It may then be made with the next block as
the bound too, unless the numbers of blocks have run out. -/
theorem frameError?_performAll (hframe : m.frameError? name stackSize b bound = none)
    (requests : List Request) :
    ((m.performAll requests).frameError? name stackSize b bound = none ↔ .free b ∉ requests) ∧
    (.free b ∉ requests → (m.performAll requests).regions.size < 2 ^ 32 - 1 →
      (m.performAll requests).frameError? name stackSize b (m.performAll requests).next = none) := by
  have hiff := (frameError?_eq_none_iff.mp hframe).performAll_iff requests
  simp only [frameError?_eq_none_iff]
  refine ⟨hiff, fun hkept hblocks => ?_⟩
  exact (hiff.mpr hkept).below_next (by omega)

/-- A block of eight bytes and one of sixteen. -/
def pair : Memory := ⟨#[⟨0, 8, some ∅⟩, ⟨0, 16, some ∅⟩]⟩

/-- Requests that leave the second block of `pair` live.  Two of them fail: to store past the end of
that block, and to free the first one again. -/
def pairRequests : List Request :=
  [.store .int64 2 8 (.long 5), .alloc 0 4, .free 1, .store .int64 2 16 .undefined, .free 1]

/-- A function whose stack has sixteen bytes keeps the second block, below a bound of three, and below
the fourth block, which is the next one after the requests.  One request more takes it away. -/
theorem frameError?_performAll_pair :
    pair.frameError? "f" 16 2 3 = none ∧
    (pair.performAll pairRequests).frameError? "f" 16 2 3 = none ∧
    (pair.performAll pairRequests).next = 4 ∧
    (pair.performAll pairRequests).frameError? "f" 16 2 4 = none ∧
    (pair.performAll (pairRequests ++ [.free 2])).frameError? "f" 16 2 3 ≠ none := by
  have hframe : pair.frameError? "f" 16 2 3 = none := by decide
  obtain ⟨hiff, hnext⟩ := frameError?_performAll hframe pairRequests
  obtain ⟨hiff', _⟩ := frameError?_performAll hframe (pairRequests ++ [.free 2])
  have hkept : .free 2 ∉ pairRequests := by decide
  exact ⟨hframe, hiff.mpr hkept, rfl, hnext hkept (by decide), fun h => hiff'.mp h (by decide)⟩

end Memory

end RegisterTransfer
