import RegisterTransfer.Proofs.Execution
import RegisterTransfer.Proofs.FrameChecks
set_option autoImplicit false

/-!
# Who owns the blocks of a memory

Every step leaves the active functions and their blocks alone, adds the innermost one with a new
block, or takes it away and frees its block (`State.Effect`).  From this it follows that the live
blocks of a memory are those of the active functions, each with the bounds of its function's stack,
and that the later a function was entered the greater is its block (`Memory.OwnedBy`).
-/

namespace RegisterTransfer

/-! ## What a step does to the active functions -/

namespace State

/-- The active functions of a state with their blocks, the innermost first. -/
def frames (s : State) : List (Function × Block) :=
  let suspended := s.stack.map fun fr => (fr.function, fr.sp)
  match s.control with
  | .running f sp _ _ => (f, sp) :: suspended
  | _ => suspended

theorem active_eq_reverse_frames (s : State) : s.active = s.frames.reverse := by
  unfold active frames
  cases s.control <;> simp

theorem depth_le_length_frames (s : State) : s.depth ≤ s.frames.length := by
  unfold depth frames
  cases s.control <;> simp

/-- What a step does to the active functions and to the memory. -/
inductive Effect (s s' : State) : Prop
  | silent (hframes : s'.frames = s.frames) (hmemory : s'.memory = s.memory)
  | store (c : Chunk) (b : Block) (ofs : Int64) (v : Val) (hframes : s'.frames = s.frames)
      (hmemory : s.memory.store c b ofs v = .ok s'.memory)
  | enter (f : Function) (hframes : s'.frames = (f, s.memory.next) :: s.frames)
      (hmemory : s'.memory = (s.memory.alloc 0 f.stackSize).1)
  | leave (f : Function) (sp : Block) (hframes : s.frames = (f, sp) :: s'.frames)
      (hmemory : s.memory.free sp = .ok s'.memory)

/-- An instruction stores at most once, and leaves its function by freeing its block. -/
theorem execute_effect {p : Program} {stack : List Frame} {m : Memory} {f : Function} {sp : Block}
    {pc : Point} {regs : Registers} {i : Instr} {s' : State}
    (h : i.execute p stack m f sp regs = .ok s') :
    Effect ⟨stack, m, .running f sp pc regs⟩ s' := by
  cases i with
  | nop succ =>
    cases h
    exact .silent rfl rfl
  | op o args dest succ =>
    obtain ⟨v, _, rfl⟩ := Instr.execute_op_iff.mp h
    exact .silent rfl rfl
  | load c a args dest succ =>
    obtain ⟨b, ofs, _, v, _, rfl⟩ := Instr.execute_load_iff.mp h
    exact .silent rfl rfl
  | store c a args src succ =>
    obtain ⟨b, ofs, _, m', hstore, rfl⟩ := Instr.execute_store_iff.mp h
    exact .store c b ofs _ rfl hstore
  | call sig callee args dest succ =>
    obtain ⟨name, _, rfl⟩ := Instr.execute_call_iff.mp h
    exact .silent rfl rfl
  | tailcall sig callee args =>
    obtain ⟨name, _, m', hfree, rfl⟩ := Instr.execute_tailcall_iff.mp h
    exact .leave f sp rfl hfree
  | cond c args ifTrue ifFalse =>
    obtain ⟨b, _, rfl⟩ := Instr.execute_cond_iff.mp h
    exact .silent rfl rfl
  | ret value =>
    obtain ⟨m', hfree, rfl⟩ := Instr.execute_ret_iff.mp h
    exact .leave f sp rfl hfree

/-- Every step has one of the four effects. -/
theorem step_effect {p : Program} {externals : Externals} {s s' : State} {e : Option Event}
    (h : s.step p externals = .ok (s', e)) : Effect s s' := by
  obtain ⟨stack, m, control⟩ := s
  cases control with
  | running f sp pc regs =>
    obtain ⟨_, i, _, hexecute⟩ := step_running_iff.mp h
    exact execute_effect hexecute
  | calling callee args =>
    rcases call_eq_ok_iff.mp h with ⟨f, _, rfl, _⟩ | ⟨_, external, _, rfl, _⟩
    · exact .enter f rfl rfl
    · exact .silent rfl rfl
  | returning v =>
    cases stack with
    | nil => cases h
    | cons fr stack =>
      cases h
      exact .silent rfl rfl

/-- A step allocates at most one block, and no block is ever forgotten. -/
theorem Effect.size_le {s s' : State} (h : Effect s s') :
    s.memory.regions.size ≤ s'.memory.regions.size ∧
      s'.memory.regions.size ≤ s.memory.regions.size + 1 := by
  cases h with
  | silent _ hmemory => simp [hmemory]
  | store c b ofs v _ hmemory =>
    rw [Memory.size_store hmemory]
    exact ⟨Nat.le_refl _, Nat.le_succ _⟩
  | enter f _ hmemory => simp [hmemory, Memory.alloc]
  | leave f sp _ hmemory =>
    rw [Memory.size_free hmemory]
    exact ⟨Nat.le_refl _, Nat.le_succ _⟩

/-- A step enters at most one function. -/
theorem Effect.length_frames_le {s s' : State} (h : Effect s s') :
    s'.frames.length ≤ s.frames.length + 1 := by
  cases h with
  | silent hframes _ => simp [hframes]
  | store _ _ _ _ hframes _ => simp [hframes]
  | enter f hframes _ => simp [hframes]
  | leave f sp hframes _ =>
    have hlength := congrArg List.length hframes
    simp only [List.length_cons] at hlength
    omega

end State

/-! ## Owned memories -/

/-- The live blocks of a memory are those of a list of active functions, the innermost first: each
has the bounds of its function's stack, and is greater than those that follow it. -/
structure Memory.OwnedBy (m : Memory) (frames : List (Function × Block)) : Prop where
  region : ∀ f b, (f, b) ∈ frames → ∃ cells, m.region? b = some ⟨0, f.stackSize, some cells⟩
  sorted : frames.Pairwise fun x y => y.2 < x.2
  live : ∀ b, m.live b → ∃ f, (f, b) ∈ frames

namespace Memory

variable {m m' : Memory} {frames : List (Function × Block)} {f : Function} {sp : Block}

theorem OwnedBy.empty : OwnedBy ∅ [] where
  region := by simp
  sorted := .nil
  live := by
    intro b hlive
    obtain ⟨lo, hi, cells, hr⟩ := live_iff.mp hlive
    have hsize := toNat_le_of_region? hr
    have hpos : b.toNat ≠ 0 := fun e => ne_zero_of_region? hr (UInt32.toNat_inj.mp e)
    simp only [EmptyCollection.emptyCollection, Memory.empty, List.size_toArray,
      List.length_nil] at hsize
    omega

theorem OwnedBy.live_of_mem (h : m.OwnedBy frames) (hmem : (f, sp) ∈ frames) : m.live sp := by
  obtain ⟨cells, hr⟩ := h.region f sp hmem
  exact live_iff.mpr ⟨0, f.stackSize, cells, hr⟩

/-- A store changes neither the bounds of a block nor whether it is live. -/
theorem OwnedBy.store (h : m.OwnedBy frames) {c : Chunk} {b : Block} {ofs : Int64} {v : Val}
    (hstore : m.store c b ofs v = .ok m') : m'.OwnedBy frames := by
  refine ⟨fun f b' hmem => ?_, h.sorted, fun b' hlive => ?_⟩
  · obtain ⟨cells, hr⟩ := h.region f b' hmem
    exact exists_region?_store hstore hr
  · rw [live_store hstore] at hlive
    exact h.live b' hlive

/-- A block is freed with the function that owns it. -/
theorem OwnedBy.free (h : m.OwnedBy ((f, sp) :: frames)) (hfree : m.free sp = .ok m') :
    m'.OwnedBy frames := by
  obtain ⟨hinner, hsorted⟩ := List.pairwise_cons.mp h.sorted
  refine ⟨fun f' b' hmem => ?_, hsorted, fun b' hlive => ?_⟩
  · obtain ⟨cells', hr'⟩ := h.region f' b' (List.mem_cons_of_mem _ hmem)
    have hne : b' ≠ sp := UInt32.ne_of_lt (hinner _ hmem)
    exact ⟨cells', (region?_free_ne hfree hne).trans hr'⟩
  · have hne : b' ≠ sp := by
      rintro rfl
      exact not_live_of_free hfree hlive
    rw [Memory.live, region?_free_ne hfree hne] at hlive
    obtain ⟨f', hmem⟩ := h.live b' hlive
    rcases List.mem_cons.mp hmem with heq | hmem
    · cases heq
      exact absurd rfl hne
    · exact ⟨f', hmem⟩

/-- A new block belongs to the function that is entered. -/
theorem OwnedBy.alloc (h : m.OwnedBy frames) (hsize : m.regions.size + 1 < 2 ^ 32) (f : Function) :
    (m.alloc 0 f.stackSize).1.OwnedBy ((f, m.next) :: frames) := by
  refine ⟨fun f' b hmem => ?_, List.pairwise_cons.mpr ⟨fun x hx => ?_, h.sorted⟩, fun b hlive => ?_⟩
  · rcases List.mem_cons.mp hmem with heq | hmem
    · cases heq
      exact ⟨∅, region?_alloc_next hsize 0 f.stackSize⟩
    · obtain ⟨cells, hr⟩ := h.region f' b hmem
      exact ⟨cells, region?_alloc_of_region? hr _ _⟩
  · obtain ⟨cells, hr⟩ := h.region x.1 x.2 hx
    exact lt_next_of_region? hsize hr
  · by_cases hb : b = m.next
    · subst hb
      exact ⟨f, List.mem_cons_self⟩
    · obtain ⟨lo, hi, cells, hr⟩ := live_iff.mp hlive
      rw [region?_alloc_ne hsize _ _ hb] at hr
      obtain ⟨f', hmem⟩ := h.live b (live_iff.mpr ⟨lo, hi, cells, hr⟩)
      exact ⟨f', List.mem_cons_of_mem _ hmem⟩

/-- Owned blocks pass every check that is made of the blocks of a stack. -/
theorem OwnedBy.carries (h : m.OwnedBy frames) (hsize : m.regions.size + 1 < 2 ^ 32) :
    m.Carries frames := by
  refine ⟨fun f b hmem => ?_, h.sorted⟩
  obtain ⟨cells, hr⟩ := h.region f b hmem
  exact ⟨lt_next_of_region? hsize hr, 0, f.stackSize, cells, hr, by simp⟩

end Memory

namespace State

/-- The live blocks of a state's memory are those of its active functions. -/
def Owned (s : State) : Prop := s.memory.OwnedBy s.frames

theorem Owned.initial (p : Program) : (initial p).Owned := Memory.OwnedBy.empty

/-- A step keeps the blocks with their owners, unless the numbers of blocks run out. -/
theorem Owned.step {p : Program} {externals : Externals} {s s' : State} {e : Option Event}
    (h : s.Owned) (hstep : s.step p externals = .ok (s', e))
    (hblocks : s'.memory.regions.size < 2 ^ 32 - 1) : s'.Owned := by
  unfold Owned at h ⊢
  cases step_effect hstep with
  | silent hframes hmemory => rwa [hframes, hmemory]
  | store c b ofs v hframes hmemory =>
    rw [hframes]
    exact h.store hmemory
  | enter f hframes hmemory =>
    have hsize : s.memory.regions.size + 1 < 2 ^ 32 := by
      simp only [hmemory, Memory.alloc, Array.size_push] at hblocks
      omega
    rw [hframes, hmemory]
    exact h.alloc hsize f
  | leave f sp hframes hmemory =>
    rw [hframes] at h
    exact h.free hmemory

/-- The check of a state's stack finds nothing where the memory carries its active functions. -/
theorem stackError?_eq_none_iff {s : State} : s.stackError? = none ↔ s.memory.Carries s.frames := by
  rw [State.stackError?, active_eq_reverse_frames, Memory.framesError?_reverse_eq_none_iff]

theorem Owned.stackError? {s : State} (h : s.Owned)
    (hblocks : s.memory.regions.size < 2 ^ 32 - 1) : s.stackError? = none :=
  stackError?_eq_none_iff.mpr (h.carries (by omega))

end State

namespace Program

variable {p : Program} {externals : Externals} {n : Nat} {s : State} {es : List Event}

/-- As many steps as a run takes, so many blocks it allocates and functions it enters at most. -/
theorem after_size_le (h : p.after externals n = .ok (s, es)) :
    s.memory.regions.size ≤ n ∧ s.frames.length ≤ n := by
  induction n generalizing s es with
  | zero =>
    cases h
    exact ⟨Nat.le_refl 0, Nat.le_refl 0⟩
  | succ n ih =>
    obtain ⟨s', es', e, h', hstep, _⟩ := State.after_succ_eq_ok_iff.mp h
    obtain ⟨hsize, hframes⟩ := ih h'
    have heffect := State.step_effect hstep
    have hsize' := heffect.size_le.2
    have hframes' := heffect.length_frames_le
    exact ⟨by omega, by omega⟩

/-- A run of few steps allocates few blocks. -/
theorem BlocksInRange.of_lt (hn : n < 2 ^ 32 - 1) : p.BlocksInRange externals n := by
  intro k s es hk h
  have hsize := (after_size_le h).1
  omega

end Program

end RegisterTransfer
