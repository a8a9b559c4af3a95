import RegisterTransfer.Proofs.MemoryRequests
set_option autoImplicit false

/-!
# The orders of definedness compose

What is less defined than a thing is less defined than everything that this thing is less defined
than: so it is with values, lists, register files and memories, and each is less defined than itself
(`definedness_preorders`).  For memories this rests on how they are built.  A cell that held `absent`
would be below a cell that is `undefined`, and this one below no cell at all; but no store leaves
`absent`.
-/

namespace RegisterTransfer

/-! ## Values, lists and register files -/

namespace Val

theorem lessDefined_trans {u v w : Val} (h : u.lessDefined v) (h' : v.lessDefined w) :
    u.lessDefined w := by
  rcases lessDefined_iff.mp h with hu | rfl
  · exact lessDefined_iff.mpr (.inl hu)
  · exact h'

theorem eq_undefined_of_lessDefined {v : Val} (h : v.lessDefined .undefined) (hv : v ≠ .absent) :
    v = .undefined := by
  rcases lessDefined_iff.mp h with hread | heq
  · cases v <;> simp_all [read]
  · exact heq

theorem listLessDefined_refl (vs : List Val) : listLessDefined vs vs := by
  rw [listLessDefined_iff, List.forall₂_same]
  exact fun v _ => lessDefined_refl v

theorem listLessDefined_trans {us vs ws : List Val} (h : listLessDefined us vs)
    (h' : listLessDefined vs ws) : listLessDefined us ws := by
  rw [listLessDefined_iff] at h h' ⊢
  induction h generalizing ws with
  | nil => exact h'
  | cons hv _ ih =>
    cases h' with
    | cons hw hrest => exact .cons (lessDefined_trans hv hw) (ih hrest)

end Val

namespace Registers

theorem lessDefined_refl (rs : Registers) : rs.lessDefined rs :=
  lessDefined_iff.mpr fun _ => Val.lessDefined_refl _

theorem lessDefined_trans {qs rs ts : Registers} (h : qs.lessDefined rs) (h' : rs.lessDefined ts) :
    qs.lessDefined ts := by
  rw [lessDefined_iff] at h h' ⊢
  exact fun r => Val.lessDefined_trans (h r) (h' r)

end Registers

/-! ## Cells and blocks -/

/-- A cell is below what is above all that stands at its offset, unless it holds `absent`. -/
theorem Cell.LessDefined.trans {c : Cell} {target target' : Option Cell} (h : c.LessDefined target)
    (hc : c.value ≠ .absent) (h' : ∀ d, target = some d → d.LessDefined target') :
    c.LessDefined target' := by
  rcases h with hundef | ⟨d, rfl, hchunk, hvalue⟩
  · exact .inl hundef
  · rcases h' d rfl with hundef | ⟨e, rfl, hchunk', hvalue'⟩
    · rw [hundef] at hvalue
      exact .inl (Val.eq_undefined_of_lessDefined hvalue hc)
    · exact .inr ⟨e, rfl, hchunk.trans hchunk', Val.lessDefined_trans hvalue hvalue'⟩

namespace Region

theorem LessDefined.refl (r : Region) : r.LessDefined r := by
  obtain ⟨lo, hi, _ | cells⟩ := r
  · trivial
  · exact ⟨rfl, rfl, fun ofs c hc => .inr ⟨c, hc, rfl, Val.lessDefined_refl _⟩⟩

/-- A block that is freed somewhere between two others is freed in the greater one, and has no room
if it is live in the lesser one. -/
theorem LessDefined.trans {r s t : Region} (h : r.LessDefined s) (h' : s.LessDefined t)
    (hr : ∀ cells, r.cells = some cells →
      ∀ ofs c, cells.get? ofs = some c → c.value ≠ .absent) : r.LessDefined t := by
  obtain ⟨lo, hi, _ | cells⟩ := r
  · obtain ⟨lo', hi', _ | cells'⟩ := s
    · obtain ⟨lo'', hi'', _ | cells''⟩ := t
      · trivial
      · exact h'.elim
    · exact h.elim
  · obtain ⟨lo', hi', _ | cells'⟩ := s
    · obtain ⟨lo'', hi'', _ | cells''⟩ := t
      · exact h
      · exact h'.elim
    · obtain ⟨rfl, rfl, hcells⟩ := h
      obtain ⟨lo'', hi'', _ | cells''⟩ := t
      · exact h'
      · obtain ⟨rfl, rfl, hcells'⟩ := h'
        exact ⟨rfl, rfl, fun ofs c hc =>
          (hcells ofs c hc).trans (hr cells rfl ofs c hc) fun d => hcells' ofs d⟩

end Region

/-! ## Memories -/

namespace Memory

variable {m m' n o : Memory} {q : Request}

theorem Extends.refl (m : Memory) : m.Extends m :=
  extends_iff.mpr ⟨rfl, fun _ r hr => ⟨r, hr, .refl r⟩⟩

theorem Extends.trans (h : m.Extends n) (h' : n.Extends o) (hm : m.CellsHold (· ≠ .absent)) :
    m.Extends o := by
  obtain ⟨hnext, hregions⟩ := extends_iff.mp h
  obtain ⟨hnext', hregions'⟩ := extends_iff.mp h'
  refine extends_iff.mpr ⟨hnext.trans hnext', fun i r hr => ?_⟩
  obtain ⟨s, hs, hrs⟩ := hregions i r hr
  obtain ⟨t, ht, hst⟩ := hregions' i s hs
  exact ⟨t, ht, hrs.trans hst (hm r (Array.mem_of_getElem? hr))⟩

theorem normalize_ne_absent (c : Chunk) (v : Val) : c.normalize v ≠ .absent := by
  cases c <;> cases v <;> simp [Chunk.normalize, Val.read]

/-- Cells hold nothing but what stores leave. -/
theorem CellsHold.performed {P : Val → Prop} (hP : ∀ (c : Chunk) v, P (c.normalize v))
    (h : m.CellsHold P) (hq : m.Performed q m') : m'.CellsHold P := by
  cases hq with
  | alloc lo hi => exact h.alloc lo hi
  | store hstore => exact h.store (hP _ _) hstore
  | free hfree => exact h.free hfree
  | refused => exact h

theorem CellsHold.performAll {P : Val → Prop} (hP : ∀ (c : Chunk) v, P (c.normalize v))
    (requests : List Request) (h : m.CellsHold P) : (m.performAll requests).CellsHold P := by
  induction requests generalizing m with
  | nil => exact h
  | cons q requests ih => exact ih (h.performed hP (m.performed q))

theorem ofRequests_cellsHold (requests : List Request) :
    (ofRequests requests).CellsHold (· ≠ .absent) := by
  have hempty : (∅ : Memory).CellsHold (· ≠ .absent) := fun r hr =>
    absurd hr (Array.not_mem_empty r)
  exact hempty.performAll normalize_ne_absent requests

end Memory

/-! ## All orders -/

/-- Definedness is a reflexive and transitive order on values, on lists of them, on register files,
and on the memories that any requests build; and register files are ordered as the values of all
registers are, also of those that were given none. -/
theorem definedness_preorders :
    ((∀ v : Val, v.lessDefined v) ∧
      ∀ u v w : Val, u.lessDefined v → v.lessDefined w → u.lessDefined w) ∧
    ((∀ vs, Val.listLessDefined vs vs) ∧
      ∀ us vs ws, Val.listLessDefined us vs → Val.listLessDefined vs ws →
        Val.listLessDefined us ws) ∧
    ((∀ rs : Registers, rs.lessDefined rs) ∧
      ∀ qs rs ts : Registers, qs.lessDefined rs → rs.lessDefined ts → qs.lessDefined ts) ∧
    ((∀ a, (Memory.ofRequests a).Extends (.ofRequests a)) ∧
      ∀ a b c, (Memory.ofRequests a).Extends (.ofRequests b) →
        (Memory.ofRequests b).Extends (.ofRequests c) →
          (Memory.ofRequests a).Extends (.ofRequests c)) ∧
    ∀ rs ws : Registers, rs.lessDefined ws ↔ ∀ r, (rs.get r).lessDefined (ws.get r) := by
  refine ⟨⟨Val.lessDefined_refl, fun _ _ _ => Val.lessDefined_trans⟩,
    ⟨Val.listLessDefined_refl, fun _ _ _ => Val.listLessDefined_trans⟩,
    ⟨Registers.lessDefined_refl, fun _ _ _ => Registers.lessDefined_trans⟩,
    ⟨fun _ => .refl _, fun a _ _ h h' => ?_⟩, fun _ _ => Registers.lessDefined_iff⟩
  exact h.trans h' (Memory.ofRequests_cellsHold a)

namespace Memory

/-- Requests that leave an `undefined` cell in the second of three blocks. -/
def scantRequests : List Request :=
  [.alloc 0 0, .alloc 0 16, .alloc 0 0, .store .int32 2 0 (.long 5)]

/-- Requests that free the first of the three blocks and store a floating-point number that is none. -/
def middlingRequests : List Request :=
  [.alloc 0 0, .alloc 0 16, .alloc 0 0, .free 1, .store .any64 2 8 (.float 0x7ff8000000000001)]

/-- Requests that free the third block too and store another number. -/
def ampleRequests : List Request := middlingRequests ++ [.free 3, .store .int32 2 0 (.int 1)]

/-- The second block of the least memory has a cell where the middle one has none, and its third block
is live where the greatest memory has freed it; still the greatest extends the least. -/
theorem definedness_preorders_scant :
    (ofRequests scantRequests).Extends (ofRequests middlingRequests) ∧
    (ofRequests middlingRequests).Extends (ofRequests ampleRequests) ∧
    (ofRequests scantRequests).Extends (ofRequests ampleRequests) ∧
    ¬ (ofRequests ampleRequests).Extends (ofRequests middlingRequests) ∧
    Val.absent.lessDefined .undefined ∧ Val.undefined.lessDefined .absent := by
  obtain ⟨_, _, _, ⟨_, htrans⟩, _⟩ := definedness_preorders
  have hlower : (ofRequests scantRequests).Extends (ofRequests middlingRequests) := by decide
  have hupper : (ofRequests middlingRequests).Extends (ofRequests ampleRequests) := by decide
  exact ⟨hlower, hupper, htrans _ _ _ hlower hupper, by decide, rfl, rfl⟩

end Memory

end RegisterTransfer
