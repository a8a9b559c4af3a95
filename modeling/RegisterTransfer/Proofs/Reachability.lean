import RegisterTransfer.Proofs.Faults
import RegisterTransfer.Proofs.Ownership
set_option autoImplicit false

/-!
# Reachable states

`Program.Reaches` holds of the states that a program comes to when its external functions answer as
an environment says, also where their answers change from call to call.  What holds initially and is
kept by every step holds of all of them (`Reaches.invariant`), and so the live blocks of a reachable
state are those of its active functions (`Reaches.blocks_owned`).
-/

namespace RegisterTransfer

namespace Program

/-- The states that a program reaches in an environment, each with the external calls that were made
on the way, the latest first. -/
inductive Reaches (p : Program) (env : Environment) : List Event → State → Prop
  | initial : Reaches p env [] (.initial p)
  | step {history : List Event} {s s' : State} {e : Option Event} (h : Reaches p env history s)
      (hstep : s.step p (env history) = .ok (s', e)) : Reaches p env (e.toList ++ history) s'

variable {p : Program} {env : Environment} {externals : Externals} {history : List Event}
variable {n : Nat} {s : State} {es : List Event}

namespace Reaches

/-- What a number of steps leads to under external functions that never change is reachable. -/
theorem of_after (h : p.after externals n = .ok (s, es)) :
    p.Reaches (.constant externals) es.reverse s := by
  induction n generalizing s es with
  | zero =>
    cases h
    exact .initial
  | succ n ih =>
    obtain ⟨s', es', e, h', hstep, rfl⟩ := State.after_succ_eq_ok_iff.mp h
    have hreaches := (ih h').step hstep
    cases e with
    | none => simpa using hreaches
    | some e => simpa using hreaches

/-- An invariant of the initial state and of the steps holds wherever the numbers of blocks have not
run out.  A step may use that they have not: no block is ever forgotten, so what holds of the last
state holds of those before it. -/
theorem invariant {I : State → Prop} (hinitial : I (.initial p))
    (hinvariant : ∀ externals s s' e, I s → s.step p externals = .ok (s', e) →
      s'.memory.regions.size < 2 ^ 32 - 1 → I s')
    (h : p.Reaches env history s) (hblocks : s.memory.regions.size < 2 ^ 32 - 1) : I s := by
  induction h with
  | initial => exact hinitial
  | step _ hstep ih =>
    have hsize := (State.step_effect hstep).size_le.1
    have hI := ih (by omega)
    exact hinvariant _ _ _ _ hI hstep hblocks

theorem owned (h : p.Reaches env history s) (hblocks : s.memory.regions.size < 2 ^ 32 - 1) :
    s.Owned := by
  apply h.invariant (State.Owned.initial p) _ hblocks
  intro externals s s' e howned hstep hsize
  exact howned.step hstep hsize

end Reaches

end Program

/-! ## The blocks of active functions -/

namespace State

variable {s : State}

theorem Owned.bounds?_of_mem_active (h : s.Owned) {f : Function} {b : Block}
    (hmem : (f, b) ∈ s.active) : s.memory.bounds? b = some (0, f.stackSize) := by
  rw [active_eq_reverse_frames, List.mem_reverse] at hmem
  obtain ⟨cells, hr⟩ := h.region f b hmem
  simp [Memory.bounds?, hr]

theorem Owned.live_iff_mem_active (h : s.Owned) (b : Block) :
    s.memory.live b ↔ b ∈ s.active.map (·.2) := by
  rw [active_eq_reverse_frames, List.map_reverse, List.mem_reverse]
  constructor
  · intro hlive
    obtain ⟨f, hmem⟩ := h.live b hlive
    exact List.mem_map.mpr ⟨(f, b), hmem, rfl⟩
  · intro hmem
    obtain ⟨⟨f, b'⟩, hmem', rfl⟩ := List.mem_map.mp hmem
    exact h.live_of_mem hmem'

/-- Blocks that decrease from the innermost function outwards are distinct. -/
theorem Owned.nodup_active (h : s.Owned) : (s.active.map (·.2)).Nodup := by
  rw [active_eq_reverse_frames, List.map_reverse, List.Nodup, List.pairwise_reverse, List.pairwise_map]
  exact h.sorted.imp fun hlt => UInt32.ne_of_lt hlt

/-- A running function has a block to free. -/
theorem Owned.exists_free {stack : List Frame} {m : Memory} {f : Function} {sp : Block} {pc : Point}
    {regs : Registers} (h : Owned ⟨stack, m, .running f sp pc regs⟩) : ∃ m', m.free sp = .ok m' := by
  apply Memory.exists_free_of_live
  exact h.live_of_mem List.mem_cons_self

/-- No step fails because a block cannot be freed. -/
theorem Owned.not_ofFree {p : Program} {externals : Externals} {reason : StuckReason} (h : s.Owned)
    (hstep : s.step p externals = .error reason) : ¬ reason.OfFree := by
  intro hreason
  obtain ⟨stack, m, control⟩ := s
  cases control with
  | running f sp pc regs =>
    rcases step_running_error_iff.mp hstep with ⟨_, rfl⟩ | ⟨i, _, hfault⟩
    · exact hreason
    · obtain ⟨e, herror⟩ := hfault.free_of_ofFree hreason
      obtain ⟨m', hfree⟩ := h.exists_free
      rw [hfree] at herror
      cases herror
  | calling callee args =>
    obtain ⟨_, rfl⟩ := call_eq_error_iff.mp hstep
    exact hreason
  | returning v =>
    cases stack with
    | nil =>
      cases hstep
      exact hreason
    | cons fr stack => cases hstep

/-- A final state has no active function. -/
theorem active_of_final? {v : Val} (h : s.final? = some v) : s.active = [] := by
  obtain ⟨hstack, hcontrol⟩ := final?_eq_some_iff.mp h
  simp [active, hstack, hcontrol]

end State

namespace Program

variable {p : Program} {env : Environment} {history : List Event} {s : State}

/-- The stack of a reachable state is sound, and the live blocks are those of the active functions:
distinct, and with the bounds of their functions' stacks.  A final state has therefore no live block,
and a function that returns or makes a tail call can free its own. -/
theorem Reaches.blocks_owned (h : p.Reaches env history s)
    (hblocks : s.memory.regions.size < 2 ^ 32 - 1) :
    s.stackError? = none ∧
    (∀ b, s.memory.live b ↔ b ∈ s.active.map (·.2)) ∧
    (s.active.map (·.2)).Nodup ∧
    (∀ f b, (f, b) ∈ s.active → s.memory.bounds? b = some (0, f.stackSize)) ∧
    (∀ v, s.final? = some v → ∀ b, ¬ s.memory.live b) ∧
    (∀ f sp pc regs, s.control = .running f sp pc regs → ∃ m, s.memory.free sp = .ok m) ∧
    (∀ externals reason, s.step p externals = .error reason → ¬ reason.OfFree) := by
  have howned := h.owned hblocks
  refine ⟨howned.stackError? hblocks, howned.live_iff_mem_active, howned.nodup_active,
    fun f b => howned.bounds?_of_mem_active, ?_, ?_, fun externals reason => howned.not_ofFree⟩
  · intro v hfinal b hlive
    rw [howned.live_iff_mem_active, State.active_of_final? hfinal] at hlive
    cases hlive
  · intro f sp pc regs hcontrol
    obtain ⟨stack, m, control⟩ := s
    subst hcontrol
    exact howned.exists_free

/-- Three functions are active after six steps, with three live blocks; after sixteen steps the
program has returned, and all of them are freed. -/
theorem blocks_owned_relay :
    (∃ s, relay.after (External.sums [("h", 2)]) 6 = .ok (s, []) ∧
      s.active.map (fun x => (x.1.name, x.2)) = [("main", 1), ("f", 2), ("g", 3)] ∧
      s.stackError? = none ∧ ∀ b, s.memory.live b ↔ b ∈ s.active.map (·.2)) ∧
    ∃ s es, relay.after (External.sums [("h", 2)]) 16 = .ok (s, es) ∧ s.final? = some (.int 7) ∧
      s.memory.regions.size = 3 ∧ ∀ b, ¬ s.memory.live b := by
  constructor
  · have hsix : relay.after (External.sums [("h", 2)]) 6 = .ok _ := rfl
    obtain ⟨hstack, hlive, _⟩ := Reaches.blocks_owned (.of_after hsix) (by decide)
    exact ⟨_, hsix, rfl, hstack, hlive⟩
  · have hsixteen : relay.after (External.sums [("h", 2)]) 16 = .ok _ := rfl
    obtain ⟨_, _, _, _, hfinal, _⟩ := Reaches.blocks_owned (.of_after hsixteen) (by decide)
    exact ⟨_, _, hsixteen, rfl, rfl, hfinal _ rfl⟩

end Program

end RegisterTransfer
