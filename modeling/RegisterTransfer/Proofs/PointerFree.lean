import RegisterTransfer.Proofs.Execution
import RegisterTransfer.Proofs.MemoryExtension
set_option autoImplicit false

/-!
# Runs without pointers

No instruction makes a pointer: operations only move those that are there, and the stack block of a
function is reached by its own addressing mode.  Pointers therefore come from external functions
alone.  Where these return none, no state that a program reaches holds one, and no access is made
through one.
-/

namespace RegisterTransfer

/-! ## Values and operations -/

/-- A value that is no pointer. -/
def Val.PointerFree (v : Val) : Prop := ∀ b ofs, v ≠ .ptr b ofs

namespace Val

variable {v w : Val}

theorem pointerFree_undefined : undefined.PointerFree := fun _ _ h => by cases h

theorem PointerFree.read (h : v.PointerFree) : v.read.PointerFree := by
  cases v with
  | absent => exact pointerFree_undefined
  | _ => exact h

theorem PointerFree.addImm (h : v.PointerFree) (n : Int64) : (v.addImm n).PointerFree := by
  intro b ofs hptr
  cases v with
  | ptr b' ofs' => exact h b' ofs' rfl
  | _ => simp [Val.addImm] at hptr

theorem PointerFree.add (hv : v.PointerFree) (hw : w.PointerFree) : (v.add w).PointerFree := by
  intro b ofs hptr
  unfold Val.add at hptr
  split at hptr
  · cases hptr
  · exact hw _ _ rfl
  · cases hptr
  · exact hv _ _ rfl
  · cases hptr

theorem PointerFree.sub (hv : v.PointerFree) : (v.sub w).PointerFree := by
  intro b ofs hptr
  unfold Val.sub at hptr
  split at hptr
  · cases hptr
  · cases hptr
  · exact hv _ _ rfl
  · cases hptr

theorem pointerFree_mul (v w : Val) : (v.mul w).PointerFree := by
  intro b ofs hptr
  unfold Val.mul at hptr
  split at hptr <;> cases hptr

end Val

/-- Operations make no pointers. -/
theorem Operation.eval?_pointerFree {o : Operation} {vs : List Val} {v : Val}
    (hvs : ∀ w ∈ vs, w.PointerFree) (h : o.eval? vs = some v) : v.PointerFree := by
  unfold Operation.eval? at h
  split at h
  · cases h
    exact hvs _ (by simp)
  · cases h
    exact fun _ _ h => by cases h
  · cases h
    exact fun _ _ h => by cases h
  · cases h
    exact fun _ _ h => by cases h
  · cases h
    exact (hvs _ (by simp)).addImm _
  · cases h
    exact (hvs _ (by simp)).add (hvs _ (by simp))
  · cases h
    exact (hvs _ (by simp)).sub
  · cases h
    exact Val.pointerFree_mul _ _
  · cases h

/-! ## Registers and memory -/

/-- Register files that hold no pointer. -/
def Registers.PointerFree (rs : Registers) : Prop := ∀ r, (rs.get r).PointerFree

namespace Registers

variable {rs : Registers}

theorem PointerFree.set (h : rs.PointerFree) (r : Reg) {v : Val} (hv : v.PointerFree) :
    (rs.set r v).PointerFree := by
  intro r'
  by_cases hr : r' = r
  · subst hr
    simpa using hv.read
  · simpa [get_set_ne _ _ hr] using h r'

theorem PointerFree.list (h : rs.PointerFree) (args : List Reg) :
    ∀ v ∈ rs.list args, v.PointerFree := by
  intro v hv
  obtain ⟨r, _, rfl⟩ := List.mem_map.mp hv
  exact h r

theorem pointerFree_ofParams (params : List Reg) {args : List Val}
    (h : ∀ v ∈ args, v.PointerFree) : (ofParams params args).PointerFree := by
  have hfold : ∀ (entries : List (Reg × Val)) (rs : Registers), rs.PointerFree →
      (∀ e ∈ entries, e.2.PointerFree) →
        (entries.foldl (fun rs e => rs.set e.1 e.2) rs).PointerFree := by
    intro entries
    induction entries with
    | nil => exact fun rs hrs _ => hrs
    | cons e entries ih =>
      intro rs hrs hentries
      exact ih _ (hrs.set e.1 (hentries e (by simp))) fun e' he' => hentries e' (by simp [he'])
  exact hfold _ ∅ (fun _ => Val.pointerFree_undefined) fun e he => h e.2 (List.of_mem_zip he).2

end Registers

/-- Memories whose live blocks hold no pointer. -/
def Memory.PointerFree (m : Memory) : Prop :=
  ∀ r ∈ m.regions, ∀ cells, r.cells = some cells →
    ∀ ofs cell, cells.get? ofs = some cell → cell.value.PointerFree

namespace Memory

variable {m m' : Memory} {c : Chunk} {b : Block} {ofs : Int64} {v : Val}

theorem PointerFree.alloc (h : m.PointerFree) (lo hi : Int64) : (m.alloc lo hi).1.PointerFree :=
  CellsHold.alloc h lo hi

theorem PointerFree.free (h : m.PointerFree) (hfree : m.free b = .ok m') : m'.PointerFree :=
  CellsHold.free h hfree

theorem PointerFree.load (h : m.PointerFree) (hload : m.load c b ofs = .ok v) : v.PointerFree := by
  obtain ⟨lo, hi, cells, hr, _, rfl⟩ := load_eq_ok_iff.mp hload
  unfold cellValue
  split
  · rename_i cell hcell
    split
    · exact CellsHold.of_region? h hr hcell
    · exact Val.pointerFree_undefined
  · exact Val.pointerFree_undefined

theorem pointerFree_normalize (c : Chunk) (hv : v.PointerFree) : (c.normalize v).PointerFree := by
  unfold Chunk.normalize
  split
  · exact hv
  · exact hv
  · exact hv.read
  · exact Val.pointerFree_undefined

theorem PointerFree.store (h : m.PointerFree) (hv : v.PointerFree)
    (hstore : m.store c b ofs v = .ok m') : m'.PointerFree :=
  CellsHold.store h (pointerFree_normalize c hv) hstore

end Memory

/-! ## States -/

/-- What the machine is about to do, without a pointer at hand. -/
def Control.PointerFree : Control → Prop
  | .running _ _ _ regs => regs.PointerFree
  | .calling _ args => ∀ v ∈ args, v.PointerFree
  | .returning v => v.PointerFree

/-- A state that holds no pointer. -/
structure State.PointerFree (s : State) : Prop where
  stack : ∀ fr ∈ s.stack, fr.regs.PointerFree
  memory : s.memory.PointerFree
  control : s.control.PointerFree

/-- External functions that return no pointers. -/
def Externals.PointerFree (externals : Externals) : Prop :=
  ∀ name external, externals name = some external → ∀ args, (external args).PointerFree

/-- Sums are no pointers. -/
theorem External.pointerFree_sumOf (start : Int32) (args : List Val) :
    (sumOf start args).PointerFree := by
  fun_induction sumOf start args with
  | case1 => exact fun _ _ h => by cases h
  | case2 _ _ _ ih => exact ih
  | case3 => exact Val.pointerFree_undefined

theorem External.sums_pointerFree (table : List (String × Int32)) : (sums table).PointerFree := by
  intro name external h args
  obtain ⟨k, _, rfl⟩ := Option.map_eq_some_iff.mp h
  exact pointerFree_sumOf k args

namespace State

variable {p : Program} {externals : Externals} {s s' : State} {e : Option Event}

theorem PointerFree.execute {stack : List Frame} {m : Memory} {f : Function} {sp : Block}
    {pc : Point} {regs : Registers} {i : Instr}
    (h : PointerFree ⟨stack, m, .running f sp pc regs⟩)
    (hexecute : i.execute p stack m f sp regs = .ok s') : s'.PointerFree := by
  obtain ⟨hstack, hmemory, hregs⟩ := h
  cases i with
  | nop succ =>
    cases hexecute
    exact ⟨hstack, hmemory, hregs⟩
  | op o args dest succ =>
    obtain ⟨v, heval, rfl⟩ := Instr.execute_op_iff.mp hexecute
    have hv : v.PointerFree := Operation.eval?_pointerFree (hregs.list args) heval
    exact ⟨hstack, hmemory, hregs.set dest hv⟩
  | load c a args dest succ =>
    obtain ⟨b, ofs, _, v, hload, rfl⟩ := Instr.execute_load_iff.mp hexecute
    exact ⟨hstack, hmemory, hregs.set dest (hmemory.load hload)⟩
  | store c a args src succ =>
    obtain ⟨b, ofs, _, m', hstore, rfl⟩ := Instr.execute_store_iff.mp hexecute
    exact ⟨hstack, hmemory.store (hregs src) hstore, hregs⟩
  | call sig callee args dest succ =>
    obtain ⟨name, _, rfl⟩ := Instr.execute_call_iff.mp hexecute
    exact ⟨List.forall_mem_cons.mpr ⟨hregs, hstack⟩, hmemory, hregs.list args⟩
  | tailcall sig callee args =>
    obtain ⟨name, _, m', hfree, rfl⟩ := Instr.execute_tailcall_iff.mp hexecute
    exact ⟨hstack, hmemory.free hfree, hregs.list args⟩
  | cond c args ifTrue ifFalse =>
    obtain ⟨b, _, rfl⟩ := Instr.execute_cond_iff.mp hexecute
    exact ⟨hstack, hmemory, hregs⟩
  | ret value =>
    obtain ⟨m', hfree, rfl⟩ := Instr.execute_ret_iff.mp hexecute
    refine ⟨hstack, hmemory.free hfree, ?_⟩
    cases value with
    | none => exact Val.pointerFree_undefined
    | some r => exact hregs r

/-- Steps bring no pointers into a state. -/
theorem PointerFree.step (hexternals : externals.PointerFree) (h : s.PointerFree)
    (hstep : s.step p externals = .ok (s', e)) : s'.PointerFree := by
  obtain ⟨stack, m, control⟩ := s
  cases control with
  | running f sp pc regs =>
    obtain ⟨_, i, _, hexecute⟩ := step_running_iff.mp hstep
    exact h.execute hexecute
  | calling callee args =>
    rcases call_eq_ok_iff.mp hstep with ⟨f, _, rfl, _⟩ | ⟨_, external, hexternal, rfl, _⟩
    · have hregs := Registers.pointerFree_ofParams f.params h.control
      exact ⟨h.stack, h.memory.alloc 0 f.stackSize, hregs⟩
    · have hresult := hexternals callee external hexternal args
      exact ⟨h.stack, h.memory, hresult.read⟩
  | returning v =>
    cases stack with
    | nil => cases hstep
    | cons fr stack =>
      cases hstep
      obtain ⟨hfr, hstack⟩ := List.forall_mem_cons.mp h.stack
      exact ⟨hstack, h.memory, hfr.set fr.result h.control⟩

/-- A state without pointers accesses nothing through one. -/
theorem PointerFree.accessInRange (h : s.PointerFree) : s.AccessInRange := by
  intro c ofs haccess
  obtain ⟨stack, m, control⟩ := s
  cases control with
  | running f sp pc regs =>
    have hnone : ∀ n args, (Addressing.indexed n).eval? sp (regs.list args) = none := by
      intro n args
      unfold Addressing.eval?
      split
      · rename_i heq _
        cases heq
      · rename_i hargs
        exact absurd rfl (h.control.list args _ (hargs ▸ List.mem_singleton_self _) _ _)
      · rfl
    simp only [indexedAccess?] at haccess
    split at haccess
    · simp [hnone] at haccess
    · simp [hnone] at haccess
    · cases haccess
  | calling callee args => cases haccess
  | returning v => cases haccess

end State

namespace Program

variable {p : Program} {externals : Externals} {n : Nat}

/-- Where external functions return no pointers, no state that a program reaches holds one. -/
theorem after_pointerFree (hexternals : externals.PointerFree) {s : State} {es : List Event}
    (h : p.after externals n = .ok (s, es)) : s.PointerFree := by
  induction n generalizing s es with
  | zero =>
    cases h
    exact ⟨List.forall_mem_nil _, fun r hr => absurd hr (Array.not_mem_empty r),
      List.forall_mem_nil _⟩
  | succ n ih =>
    obtain ⟨s', es', e, h', hstep, _⟩ := State.after_succ_eq_ok_iff.mp h
    exact (ih h').step hexternals hstep

/-- Where external functions return no pointers, no run makes an access through one. -/
theorem AccessesInRange.of_pointerFree (hexternals : externals.PointerFree) (n : Nat) :
    p.AccessesInRange externals n :=
  fun _ _ _ _ h => (after_pointerFree hexternals h).accessInRange

end Program

end RegisterTransfer
