import RegisterTransfer.Proofs.Conversion
import RegisterTransfer.Proofs.Epilogues
import RegisterTransfer.Proofs.Ownership
import RegisterTransfer.Simulation.Match
set_option autoImplicit false

/-!
# The states of a program and of its conversion

`Related` says how a state of a program stands to a state of its converted program.  Beyond what is
checked of two matching states it says that the functions of the target are the converted functions
of the source, and that every live block belongs to an active function; this is what a step keeps.
Related states pass the check (`Related.mismatch?_eq_none`).
-/

namespace RegisterTransfer

/-! ## Stacks -/

/-- Source frames, with whether they are elided, against target frames: an elided frame stands for
itself, and the others agree one by one.  Both lists are in the same order, whichever it is. -/
inductive StacksMatch (Elided : Frame → Prop) (Kept : Frame → Frame → Prop) :
    List (Frame × Bool) → List Frame → Prop
  | nil : StacksMatch Elided Kept [] []
  | elided {fr : Frame} {ss : List (Frame × Bool)} {ts : List Frame} (hfr : Elided fr)
      (rest : StacksMatch Elided Kept ss ts) : StacksMatch Elided Kept ((fr, true) :: ss) ts
  | kept {s t : Frame} {ss : List (Frame × Bool)} {ts : List Frame} (hkept : Kept s t)
      (rest : StacksMatch Elided Kept ss ts) : StacksMatch Elided Kept ((s, false) :: ss) (t :: ts)

namespace StacksMatch

variable {Elided Elided' : Frame → Prop} {Kept Kept' : Frame → Frame → Prop}
variable {ss ss' : List (Frame × Bool)} {ts ts' : List Frame}

theorem mono (helided : ∀ fr, Elided fr → Elided' fr) (hkept : ∀ s t, Kept s t → Kept' s t)
    (h : StacksMatch Elided Kept ss ts) : StacksMatch Elided' Kept' ss ts := by
  induction h with
  | nil => exact .nil
  | elided hfr _ ih => exact .elided (helided _ hfr) ih
  | kept hst _ ih => exact .kept (hkept _ _ hst) ih

theorem append (h : StacksMatch Elided Kept ss ts) (h' : StacksMatch Elided Kept ss' ts') :
    StacksMatch Elided Kept (ss ++ ss') (ts ++ ts') := by
  induction h with
  | nil => exact h'
  | elided hfr _ ih => exact .elided hfr ih
  | kept hst _ ih => exact .kept hst ih

theorem reverse (h : StacksMatch Elided Kept ss ts) :
    StacksMatch Elided Kept ss.reverse ts.reverse := by
  induction h with
  | nil => exact .nil
  | elided hfr _ ih => simpa using ih.append (.elided hfr .nil)
  | kept hst _ ih => simpa using ih.append (.kept hst .nil)

/-- Every target frame stands for a source frame. -/
theorem exists_source (h : StacksMatch Elided Kept ss ts) {t : Frame} (ht : t ∈ ts) :
    ∃ s, (s, false) ∈ ss ∧ Kept s t := by
  induction h with
  | nil => cases ht
  | elided _ _ ih =>
    obtain ⟨s, hs, hst⟩ := ih ht
    exact ⟨s, List.mem_cons_of_mem _ hs, hst⟩
  | @kept s t' _ _ hst _ ih =>
    rcases List.mem_cons.mp ht with rfl | ht
    · exact ⟨s, List.mem_cons_self, hst⟩
    · obtain ⟨s', hs', hst'⟩ := ih ht
      exact ⟨s', List.mem_cons_of_mem _ hs', hst'⟩

theorem of_mem_elided (h : StacksMatch Elided Kept ss ts) {fr : Frame} (hfr : (fr, true) ∈ ss) :
    Elided fr := by
  induction h with
  | nil => cases hfr
  | elided hself _ ih =>
    rcases List.mem_cons.mp hfr with heq | hfr
    · cases heq
      exact hself
    · exact ih hfr
  | kept _ _ ih =>
    rcases List.mem_cons.mp hfr with heq | hfr
    · cases heq
    · exact ih hfr

/-- There are as many target frames as source frames that are not elided. -/
theorem count_false (h : StacksMatch Elided Kept ss ts) :
    (ss.map Prod.snd).count false = ts.length := by
  induction h with
  | nil => rfl
  | elided _ _ ih => simpa using ih
  | kept _ _ ih => simpa using ih

end StacksMatch

/-! ## Frames -/

namespace Frame

variable {bound : Int} {n : Nat} {s t fr : Frame}

/-- A frame without a stack that does nothing but return the result of its call. -/
def Returns (bound : Int) (fr : Frame) : Prop :=
  fr.function.stackSize = 0 ∧ fr.function.code.isReturn fr.pc fr.result bound

/-- Two frames that resume at the same point, with the same block, the second with registers at
least as defined. -/
structure Agrees (s t : Frame) : Prop where
  name : s.function.name = t.function.name
  pc : s.pc = t.pc
  result : s.result = t.result
  sp : s.sp = t.sp
  regs : s.regs.lessDefined t.regs

theorem elision?_eq_none_iff : fr.elision? bound n = none ↔ fr.Returns bound := by
  unfold elision? Returns
  split
  · simp_all
  · split <;> simp_all

theorem mismatch?_eq_none_iff : s.mismatch? n t = none ↔ s.Agrees t := by
  unfold mismatch?
  constructor
  · intro h
    split at h
    · cases h
    · split at h
      · cases h
      · split at h
        · cases h
        · rename_i hresume hblock hregs
          simp only [not_or, not_not] at hresume hblock
          exact ⟨hresume.1, hresume.2.1, hresume.2.2, hblock, by simpa using hregs⟩
  · rintro ⟨hname, hpc, hresult, hsp, hregs⟩
    simp [hname, hpc, hresult, hsp, hregs]

/-- A frame of a program and the frame of the converted program that stands for it. -/
structure Converted (p : Program) (rule : Rule) (s t : Frame) : Prop where
  defined : s.function ∈ p.definitions
  function : t.function = s.function.transform rule
  pc : t.pc = s.pc
  result : t.result = s.result
  sp : t.sp = s.sp
  regs : s.regs.lessDefined t.regs

theorem Converted.agrees {p : Program} {rule : Rule} (h : s.Converted p rule t) : s.Agrees t where
  name := by rw [h.function, Function.name_transform]
  pc := h.pc.symm
  result := h.result.symm
  sp := h.sp.symm
  regs := h.regs

end Frame

/-- The check of two stacks succeeds where they match and no target frame is left over. -/
theorem Witness.stackMismatch?_eq_none_iff {bound : Int} {total n matched : Nat}
    {ss : List (Frame × Bool)} {ts : List Frame} :
    stackMismatch? bound total n matched ss ts = none ↔
      StacksMatch (·.Returns bound) Frame.Agrees ss ts ∧ matched + ts.length = total := by
  induction ss generalizing n matched ts with
  | nil =>
    cases ts with
    | nil => simp [stackMismatch?, StacksMatch.nil]
    | cons t ts =>
      simp only [stackMismatch?, reduceCtorEq, false_iff]
      rintro ⟨h, _⟩
      cases h
  | cons x ss ih =>
    obtain ⟨fr, _ | _⟩ := x
    · cases ts with
      | nil =>
        simp only [stackMismatch?, reduceCtorEq, false_iff]
        rintro ⟨h, _⟩
        cases h
      | cons t ts =>
        simp only [stackMismatch?]
        cases h : fr.mismatch? n t with
        | some r =>
          simp only [reduceCtorEq, false_iff]
          rintro ⟨hmatch, _⟩
          cases hmatch with
          | kept hagrees _ =>
            rw [Frame.mismatch?_eq_none_iff.mpr hagrees] at h
            cases h
        | none =>
          rw [ih, List.length_cons]
          refine ⟨fun ⟨hrest, hcount⟩ => ?_, fun ⟨hmatch, hcount⟩ => ?_⟩
          · exact ⟨.kept (Frame.mismatch?_eq_none_iff.mp h) hrest, by omega⟩
          · cases hmatch with
            | kept _ hrest => exact ⟨hrest, by omega⟩
    · simp only [stackMismatch?]
      cases h : fr.elision? bound n with
      | some r =>
        simp only [reduceCtorEq, false_iff]
        rintro ⟨hmatch, _⟩
        cases hmatch with
        | elided hreturns _ =>
          rw [Frame.elision?_eq_none_iff.mpr hreturns] at h
          cases h
      | none =>
        simp only [ih]
        refine ⟨fun ⟨hrest, hcount⟩ => ?_, fun ⟨hmatch, hcount⟩ => ?_⟩
        · exact ⟨.elided (Frame.elision?_eq_none_iff.mp h) hrest, hcount⟩
        · cases hmatch with
          | elided _ hrest => exact ⟨hrest, hcount⟩

/-! ## States -/

/-- Two states match if none of the checks finds a reason why they should not. -/
theorem Witness.mismatch?_eq_none_iff {bound : Int} {w : Witness} {s t : State} :
    w.mismatch? bound s t = none ↔
      s.memory.mismatch? t.memory = none ∧ s.stackError? = none ∧ t.stackError? = none ∧
        stackMismatch? bound t.stack.length 0 0 (s.stack.zip w.elided).reverse t.stack.reverse
          = none ∧
        w.controlMismatch? bound s.control t.control = none := by
  simp [mismatch?]

/-- What a program is about to do against what its converted program is about to do, with the
register that holds the value while the program runs an epilogue that the other has skipped. -/
inductive ControlsMatch (p : Program) (rule : Rule) (expect : Reg) : Control → Control → Prop
  | running {f : Function} {sp : Block} {pc : Point} {regs regs' : Registers}
      (hdefined : f ∈ p.definitions) (hregs : regs.lessDefined regs') :
      ControlsMatch p rule expect (.running f sp pc regs)
        (.running (f.transform rule) sp pc regs')
  | epilogue {f : Function} {sp : Block} {pc : Point} {regs : Registers} {v : Val}
      (hstack : f.stackSize = 0)
      (hreturn : f.code.isReturn pc expect (p.measureBound rule.bound))
      (hvalue : (regs.get expect).lessDefined v) :
      ControlsMatch p rule expect (.running f sp pc regs) (.returning v)
  | calling {callee : String} {args args' : List Val}
      (hargs : Val.listLessDefined args args') :
      ControlsMatch p rule expect (.calling callee args) (.calling callee args')
  | returning {v v' : Val} (hvalue : v.lessDefined v') :
      ControlsMatch p rule expect (.returning v) (.returning v')

theorem ControlsMatch.controlMismatch?_eq_none {p : Program} {rule : Rule} {w : Witness}
    {s t : Control} (h : ControlsMatch p rule w.expect s t) :
    w.controlMismatch? (p.measureBound rule.bound) s t = none := by
  cases h with
  | running _ hregs => simp [Witness.controlMismatch?, hregs]
  | epilogue hstack hreturn hvalue => simp [Witness.controlMismatch?, hstack, hreturn, hvalue]
  | calling hargs => simp [Witness.controlMismatch?, hargs]
  | returning hvalue => simp [Witness.controlMismatch?, hvalue]

/-- A state of a program against a state of its converted program. -/
structure Corresponds (p : Program) (rule : Rule) (w : Witness) (s t : State) : Prop where
  memory : s.memory.LessDefined t.memory
  length : w.elided.length = s.stack.length
  frames : StacksMatch (·.Returns (p.measureBound rule.bound)) (·.Converted p rule)
    (s.stack.zip w.elided) t.stack
  control : ControlsMatch p rule w.expect s.control t.control

/-- A state of a program and the state of its converted program that stands for it, both with all
live blocks owned by active functions. -/
structure Related (p : Program) (rule : Rule) (w : Witness) (s t : State) : Prop
    extends Corresponds p rule w s t where
  source : s.Owned
  target : t.Owned

namespace Related

variable {p : Program} {rule : Rule} {w : Witness} {s t : State}

theorem initial (p : Program) (rule : Rule) :
    Related p rule .start (.initial p) (.initial (p.mapTransform rule)) where
  memory := ⟨rfl, fun i r s hr _ => by
    simp [State.initial, EmptyCollection.emptyCollection, Memory.empty] at hr⟩
  source := State.Owned.initial p
  target := State.Owned.initial _
  length := rfl
  frames := .nil
  control := .calling rfl

/-- Related states pass the check of matching states. -/
theorem mismatch?_eq_none (h : Related p rule w s t)
    (hblocks : s.memory.regions.size < 2 ^ 32 - 1) :
    w.mismatch? (p.measureBound rule.bound) s t = none := by
  have hmemory : s.memory.mismatch? t.memory = none := h.memory.extends
  have hsource : s.stackError? = none := h.source.stackError? hblocks
  have htarget : t.stackError? = none := h.target.stackError? (h.memory.size_eq ▸ hblocks)
  have hstacks : Witness.stackMismatch? (p.measureBound rule.bound) t.stack.length 0 0
      (s.stack.zip w.elided).reverse t.stack.reverse = none := by
    rw [Witness.stackMismatch?_eq_none_iff]
    exact ⟨(h.frames.mono (fun _ hfr => hfr) fun _ _ hst => hst.agrees).reverse, by simp⟩
  exact Witness.mismatch?_eq_none_iff.mpr
    ⟨hmemory, hsource, htarget, hstacks, h.control.controlMismatch?_eq_none⟩

/-- Where the source has returned for good, so has the target, with a value at least as defined. -/
theorem final? (h : Related p rule w s t) {v : Val} (hfinal : s.final? = some v) :
    ∃ v', t.final? = some v' ∧ v.lessDefined v' := by
  obtain ⟨stack, m, control⟩ := s
  obtain ⟨stack', m', control'⟩ := t
  obtain ⟨rfl, rfl⟩ := State.final?_eq_some_iff.mp hfinal
  cases h.control with
  | @returning _ v' hvalue =>
    cases h.frames with
    | nil => exact ⟨v', rfl, hvalue⟩

/-- While the source runs an epilogue that the target has skipped, its block is freed in the
target: no target frame owns it, for its number is above those of all suspended functions. -/
theorem not_live_of_epilogue {f : Function} {sp : Block} {pc : Point} {regs : Registers} {v : Val}
    (h : Related p rule w s t) (hs : s.control = .running f sp pc regs)
    (ht : t.control = .returning v) : ¬ t.memory.live sp := by
  intro hlive
  obtain ⟨g, hmem⟩ := h.target.live sp hlive
  simp only [State.frames, ht, List.mem_map, Prod.mk.injEq] at hmem
  obtain ⟨fr', hfr', _, hsp'⟩ := hmem
  obtain ⟨fr, hfr, hconverted⟩ := h.frames.exists_source hfr'
  have hsource := h.source.sorted
  simp only [State.frames, hs, List.pairwise_cons] at hsource
  have hlt := hsource.1 (fr.function, fr.sp)
    (List.mem_map.mpr ⟨fr, (List.of_mem_zip hfr).1, rfl⟩)
  rw [← hconverted.sp, hsp'] at hlt
  exact absurd hlt (UInt32.lt_irrefl sp)

end Related

end RegisterTransfer
